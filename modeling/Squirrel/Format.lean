import Squirrel.Doc.Printer
import Squirrel.Grammar.Program
import Squirrel.Layout.Survey

/-! Formatting source text. -/

namespace Squirrel

structure FormatOptions where
  indent : String
  maxWidth : Int
  tabWidth : Int
  insertFinalNewline : Bool
  deriving DecidableEq, Repr

namespace FormatOptions

def standard : FormatOptions := ⟨"\t", 100, 4, true⟩

def pageStyle (options : FormatOptions) : PageStyle :=
  ⟨options.maxWidth, options.indent, options.tabWidth⟩

end FormatOptions

def FormatOptions.finish (options : FormatOptions) (text : String) : String :=
  if options.insertFinalNewline ∧ text ≠ "" then text ++ "\n" else text

/-- The tree of `source`, printed in its standard layout, if it has one. -/
def formatTree? (options : FormatOptions) (source : String) (tree : Tree) :
    Except Doc.UnknownElement String :=
  ((Layout.document source.toList tree).printFrom options.pageStyle .blank).map fun page =>
    options.finish (String.ofList page.text)

/-- Whether a tree can be laid out within the nesting limit, and its document be gone through. -/
def layoutFits [NestingLimit] (source : String) (tree : Tree) : Bool :=
  (Layout.survey nestingLimit tree).complete &&
    decide ((Layout.document source.toList tree).depth ≤ nestingLimit)

/-- Text that is nested too deeply stays as it is. -/
def formatParsed? [NestingLimit] (options : FormatOptions) (source : String) (parsed : Parsed) :
    Except Doc.UnknownElement String :=
  if layoutFits source parsed.tree then formatTree? options source parsed.tree else .ok source

def formatParsed [NestingLimit] (options : FormatOptions) (source : String) (parsed : Parsed) :
    String :=
  (formatParsed? options source parsed).toOption.getD source

def format? [NestingLimit] (options : FormatOptions) (source : String) :
    Except Doc.UnknownElement String :=
  formatParsed? options source (parse source)

def format [NestingLimit] (options : FormatOptions) (source : String) : String :=
  formatParsed options source (parse source)

/-- Refuses text with malformed tokens or statements. -/
def formatStrict [NestingLimit] (options : FormatOptions) (source : String) :
    Except (List Diagnostic) String :=
  let parsed := parse source
  if parsed.diagnostics.isEmpty then .ok (formatParsed options source parsed)
  else .error parsed.diagnostics

end Squirrel
