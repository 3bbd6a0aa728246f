import Squirrel.Analysis.Resolve
import Squirrel.Format

/-! What the tools say about their work. -/

namespace Squirrel.CommandLine

/-- The parts of the program that write to the log. -/
inductive Part where
  | lexer | reader | formatter | analyzer | pipeline
  deriving DecidableEq, Repr

def Part.name : Part → String
  | .lexer => "squirrel_ref.lexer_rd"
  | .reader => "squirrel_ref.parser_rd"
  | .formatter => "squirrel_ref.formatter"
  | .analyzer => "squirrel_ref.analyzer"
  | .pipeline => "squirrel_ref.pipeline"

structure LogLine where
  part : Part
  message : String
  deriving DecidableEq, Repr

def LogLine.render (line : LogLine) : String :=
  "DEBUG " ++ line.part.name ++ ": " ++ line.message ++ "\n"

def renderLog (lines : List LogLine) : String := String.join (lines.map (·.render))

def lexerLog (tokenized : Tokenized) : List LogLine :=
  [⟨.lexer, "lexed " ++ toString tokenized.tokens.length ++ " tokens, " ++
    toString tokenized.diagnostics.length ++ " diagnostics"⟩]

/-- Giving up on deep nesting is not among the errors that are logged. -/
def faultLog (diagnostic : Diagnostic) : List LogLine :=
  if diagnostic.fault = .grammatical .nestingTooDeep then []
  else
    [⟨.reader, "syntax error: " ++ diagnostic.message ++ " at line " ++
      toString diagnostic.span.line ++ ", col " ++ toString diagnostic.span.column⟩]

def readerLog (parsed : Parsed) : List LogLine :=
  parsed.diagnostics.flatMap faultLog ++
    [⟨.reader, "parsed " ++ toString (parsed.tree.children.length - 1) ++ " statements, " ++
      toString parsed.diagnostics.length ++ " syntax errors"⟩]

def parseLog (source : String) : List LogLine :=
  let tokenized := tokenize source
  lexerLog tokenized ++ readerLog (parseTokens tokenized.tokens)

def echoLog (label : Label) : LogLine :=
  ⟨.formatter, "echoing malformed " ++ label.name ++ " verbatim"⟩

/-- Written while a text is formatted into `text`. -/
def formatLog (source text : String) : List LogLine :=
  let tree := (parse source).tree
  parseLog source ++ (Layout.survey nestingLimit tree).echoed.map echoLog ++
    [⟨.pipeline,
      if layoutFits source tree then
        "formatted " ++ toString source.length ++ " chars into " ++ toString text.length ++ " chars"
      else "nesting too deep to format, returning input unchanged"⟩]

def openBaseLog (name : Option String) : LogLine :=
  ⟨.analyzer, "open inheritance from " ++ name.elim "None" Text.quoted⟩

def analysisLog (source : String) (known : List String) : List LogLine :=
  let parsed := parse source
  let analysis := analyzeTree known parsed.tree
  parseLog source ++
    (if analysis.complete then [] else [⟨.analyzer, "analysis stopped at nesting limit"⟩]) ++
    analysis.openBases.map openBaseLog ++
    [⟨.analyzer, "analyzed " ++ toString analysis.graph.scopes.length ++ " scopes, " ++
        toString analysis.graph.declarations.length ++ " declarations, " ++
        toString analysis.references.length ++ " references"⟩,
     ⟨.pipeline, toString parsed.diagnostics.length ++ " syntax and " ++
        toString analysis.diagnostics.length ++ " semantic diagnostics"⟩]

end Squirrel.CommandLine
