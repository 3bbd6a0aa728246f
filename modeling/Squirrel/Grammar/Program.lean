import Squirrel.Grammar.Statement
import Squirrel.Token.Tokenize

/-! Reading whole programs. -/

namespace Squirrel

/-- How many levels of nesting are followed. -/
class NestingLimit where
  nestingLimit : Nat

export NestingLimit (nestingLimit)

/-- The limit that the programs run with. -/
instance : NestingLimit := ⟨500⟩

namespace Grammar

def rulesExhausted : Rules where
  statement := throw .tooDeep
  expression := throw .tooDeep
  ternary := throw .tooDeep
  binary _ := throw .tooDeep
  unary := throw .tooDeep

def rulesAbove (below : Rules) : Rules where
  statement := statement below
  expression := expression below
  ternary := ternary below
  binary := binary below
  unary := unary below

/-- The rules with `levels` levels of nesting left. -/
def rules : Nat → Rules
  | 0 => rulesExhausted
  | levels + 1 => rulesAbove (rules levels)

def allRules [NestingLimit] : Rules := rules nestingLimit

/-- Gives up on structure: all tokens but the last one become one error node. -/
def flatProgram (tokens : List Token) (state : State) : List Tree × State :=
  let reported := state.report .nestingTooDeep (tokens.headD noToken)
  let inner := tokens.dropLast
  (if inner.isEmpty then [] else [errorNode inner],
    { reported with rest := tokens.getLast?.toList })

/-- Reads on to the end of `tokens`, and closes the program with the last of them. -/
def program [NestingLimit] (tokens : List Token) (state : State) : Tree × State :=
  let (trees, stop) :=
    match statements allRules [] state with
    | .ok trees stop => (trees, stop)
    | .error _ stop => flatProgram tokens stop
  (.node .program (trees ++ tokens.getLast?.toList.map .leaf), stop)

end Grammar

structure Parsed where
  tree : Tree
  diagnostics : List Diagnostic

/-- The diagnostics are those of the grammar, in the order in which they arose. -/
def parseTokens [NestingLimit] (tokens : List Token) : Parsed :=
  let (tree, state) := Grammar.program tokens (.ofTokens tokens)
  ⟨tree, state.diagnostics⟩

/-- The tree of a text, with all that is wrong with its tokens and their order. -/
def parse [NestingLimit] (source : String) : Parsed :=
  let tokenized := tokenize source
  let parsed := parseTokens tokenized.tokens
  ⟨parsed.tree, Diagnostic.inSourceOrder (tokenized.diagnostics ++ parsed.diagnostics)⟩

end Squirrel
