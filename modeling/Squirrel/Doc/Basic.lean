import Squirrel.Text.Quoted

/-! Layout documents. -/

namespace Squirrel

/-- A soft line is nothing when it is flat, another one a space. A hard line always breaks; a fresh
one is left out while the current line is still empty. -/
structure LineStyle where
  soft : Bool
  hard : Bool
  fresh : Bool
  deriving DecidableEq, Repr

/-- What a text can be laid out from.

A group is printed flat if it fits, and broken otherwise or if it is marked so. The lines of an
indented document start one level deeper. A line suffix waits for the next line break, and a break
parent breaks all groups around it. What is `unknown` cannot be printed. -/
inductive Doc where
  | text (content : String)
  | concat (parts : List Doc)
  | group (contents : Doc) (broken : Bool)
  | indent (contents : Doc)
  | line (style : LineStyle)
  | ifBreak (broken flat : Doc)
  | lineSuffix (contents : Doc)
  | breakParent
  | unknown (value : Option Int)
  deriving Repr, Inhabited

namespace Doc

def nothing : Doc := .concat []

def space : Doc := .text " "

def misfit : Doc := .unknown none

def plainLine : Doc := .line ⟨false, false, false⟩

def softLine : Doc := .line ⟨true, false, false⟩

def hardLine : Doc := .concat [.line ⟨false, true, false⟩, .breakParent]

def freshLine : Doc := .concat [.line ⟨false, true, true⟩, .breakParent]

def groupOf (parts : List Doc) : Doc := .group (.concat parts) false

def indentOf (parts : List Doc) : Doc := .indent (.concat parts)

def LineStyle.describe (style : LineStyle) : String :=
  if style.hard then if style.fresh then "freshline" else "hardline"
  else if style.soft then "softline" else "line"

mutual

def describe : Doc → String
  | .text content => Text.quoted content
  | .concat parts => "[" ++ ", ".intercalate (describeAll parts) ++ "]"
  | .group contents broken =>
    "group" ++ (if broken then "!" else "") ++ "(" ++ describe contents ++ ")"
  | .indent contents => "indent(" ++ describe contents ++ ")"
  | .line style => LineStyle.describe style
  | .ifBreak broken flat => "if_break(" ++ describe broken ++ ", " ++ describe flat ++ ")"
  | .lineSuffix contents => "line_suffix(" ++ describe contents ++ ")"
  | .breakParent => "break_parent"
  | .unknown none => "None"
  | .unknown (some _) => "break_parent"

def describeAll : List Doc → List String
  | [] => []
  | doc :: docs => describe doc :: describeAll docs

end

mutual

/-- The document as a list without lists inside; each part holds such a list in turn. -/
def splice : Doc → List Doc
  | .concat parts => spliceAll parts
  | .group contents broken => [.group (.concat (splice contents)) broken]
  | .indent contents => [.indent (.concat (splice contents))]
  | .ifBreak broken flat => [.ifBreak (.concat (splice broken)) (.concat (splice flat))]
  | .lineSuffix contents => [.lineSuffix (.concat (splice contents))]
  | .text content => [.text content]
  | .line style => [.line style]
  | .breakParent => [.breakParent]
  | .unknown value => [.unknown value]

def spliceAll : List Doc → List Doc
  | [] => []
  | doc :: docs => splice doc ++ spliceAll docs

end

mutual

/-- How deep the parts of a document are nested. -/
def depth : Doc → Nat
  | .concat parts => depthOf parts + 1
  | .group contents _ | .indent contents | .lineSuffix contents => contents.depth + 1
  | .ifBreak broken flat => max broken.depth flat.depth + 1
  | .text _ | .line _ | .breakParent | .unknown _ => 1

def depthOf : List Doc → Nat
  | [] => 0
  | doc :: docs => max doc.depth (depthOf docs)

end

/-- A value that stands in a document and is no layout element. -/
structure UnknownElement where
  value : Option Int
  deriving DecidableEq, Repr

def UnknownElement.message (element : UnknownElement) : String :=
  "Unknown doc element: " ++ element.value.elim "None" toString

mutual

/-- The first unknown element, in the order in which the document is written. -/
def unknown? : Doc → Option UnknownElement
  | .concat parts => unknownIn? parts
  | .group contents _ => unknown? contents
  | .indent contents => unknown? contents
  | .ifBreak broken flat => (unknown? broken).or (unknown? flat)
  | .lineSuffix contents => unknown? contents
  | .unknown value => some ⟨value⟩
  | .text _ | .line _ | .breakParent => none

def unknownIn? : List Doc → Option UnknownElement
  | [] => none
  | doc :: docs => (unknown? doc).or (unknownIn? docs)

end

mutual

/-- Marks each group that has to break, and says whether the document itself has to. What waits for
a line break does not break the groups around it. -/
def propagate : Doc → Doc × Bool
  | .text content => (.text content, false)
  | .concat parts =>
    let (marked, breaks) := propagateAll parts
    (.concat marked, breaks)
  | .group contents broken =>
    let (marked, breaks) := propagate contents
    (.group marked (broken || breaks), broken || breaks)
  | .indent contents =>
    let (marked, breaks) := propagate contents
    (.indent marked, breaks)
  | .line style => (.line style, style.hard)
  | .ifBreak broken flat =>
    let (markedBroken, inBroken) := propagate broken
    let (markedFlat, inFlat) := propagate flat
    (.ifBreak markedBroken markedFlat, inBroken || inFlat)
  | .lineSuffix contents => (.lineSuffix (propagate contents).1, false)
  | .breakParent => (.breakParent, true)
  | .unknown value => (.unknown value, false)

def propagateAll : List Doc → List Doc × Bool
  | [] => ([], false)
  | doc :: docs =>
    let (marked, breaks) := propagate doc
    let (others, breaksLater) := propagateAll docs
    (marked :: others, breaks || breaksLater)

end

end Doc

end Squirrel
