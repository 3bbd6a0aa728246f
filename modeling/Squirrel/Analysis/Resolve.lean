import Squirrel.Analysis.Walk
import Squirrel.Grammar.Program

/-! Names are resolved after the walk, when all scopes are known. -/

namespace Squirrel.Analysis

/-- Names that are there without a declaration. -/
def builtins : List String :=
  ["array", "assert", "callee", "clone", "collectgarbage", "compilestring", "enabledebuginfo",
   "error", "format", "getconsttable", "getroottable", "getstackinfos", "newthread", "print",
   "regexp", "resurrectunreachable", "setconsttable", "setdebughook", "seterrorhandler",
   "setroottable", "suspend", "type", "typeof", "this", "base", "Math", "inherit", "vargv"]

/-- A name that may be left unused on purpose. -/
def discard : String := "_"

/-- The last part of a quoted path, which names a slot of the root scope. -/
def pathName (literal : List Char) : List Char :=
  let isQuote (c : Char) : Bool := c = '@' || c = '"'
  let unquoted := ((literal.dropWhile isQuote).reverse.dropWhile isQuote).reverse
  let path := (unquoted.reverse.dropWhile (· = '/')).reverse
  (path.reverse.takeWhile (· ≠ '/')).reverse

/-- The name and the declaration that a base stands for. -/
def resolveBase (graph : ScopeGraph) (inheritance : Inheritance) :
    Except GraphError (Option String × Option DeclarationId) :=
  match inheritance.base with
  | .node .reference (.leaf token :: _) => do
    let found ←
      graph.lookup inheritance.scope token.text inheritance.seq inheritance.deferred
    let declaration? ← match found.declaration? with
      | some id => pure (some id)
      | none => graph.findRoot token.text inheritance.seq
    return (some token.text, declaration?)
  | .node .rootReference [_, .leaf token] | .node .member [_, _, .leaf token] =>
    return (some token.text, ← graph.findRoot token.text inheritance.seq)
  | .node .literal (.leaf token :: _) =>
    if token.kind = .string ∨ token.kind = .verbatimString then do
      let name := String.ofList (pathName token.text.toList)
      return (some name, ← graph.findRoot name inheritance.seq)
    else return (none, none)
  | _ => return (none, none)

/-- The scope of the table that a declaration was bound to. -/
def tableScope? (graph : ScopeGraph) : Option DeclarationId → Except GraphError (Option ScopeId)
  | some id => return (← graph.declaration id).tableScope
  | none => return none

/-- `openBases` are the names of bases that nobody knows, in the order of the walk. -/
structure Resolved where
  graph : ScopeGraph
  diagnostics : List Diagnostic
  openBases : List (Option String)

def Resolved.report (resolved : Resolved) (fault : NameFault) (severity : Severity) (span : Span) :
    Resolved :=
  { resolved with
    diagnostics := resolved.diagnostics ++ [⟨.semantic fault, severity, span⟩] }

def resolveInheritance (resolved : Resolved) (inheritance : Inheritance) :
    Except GraphError Resolved := do
  let (name, declaration?) ← resolveBase resolved.graph inheritance
  match ← tableScope? resolved.graph declaration? with
  | none =>
    let graph ← resolved.graph.trySetOpen inheritance.tableScope true
    return { resolved with graph := graph, openBases := resolved.openBases ++ [name] }
  | some target =>
    let (linked, graph) ← resolved.graph.linkFallback inheritance.tableScope target
    if linked then return { resolved with graph := graph }
    else
      return resolved.report (.cyclicInheritance (name.getD "")) .error inheritance.base.span

def resolveReference (known : List String) (resolved : Resolved) (reference : Reference) :
    Except GraphError Resolved := do
  let found ←
    resolved.graph.lookup reference.scope reference.name reference.seq reference.deferred
  match found.declaration? with
  | some id =>
    let _ ← resolved.graph.declaration id
    return { resolved with
      graph := resolved.graph.updateDeclaration id fun declaration =>
        { declaration with
          reads := declaration.reads + if reference.isRead then 1 else 0
          writes := declaration.writes + if reference.isWrite then 1 else 0 } }
  | none =>
    if builtins.contains reference.name || known.contains reference.name then return resolved
    else if reference.isCall && found.passedOpen then return resolved
    else return resolved.report (.undeclared reference.name) .error reference.span

/-- How severe it is that a declaration is never read. -/
def unusedSeverity? (declaration : Declaration) : Option Severity :=
  if 0 < declaration.reads ∨ declaration.quiet ∨ declaration.name = discard then none
  else match declaration.kind with
    | .localVariable => some .warning
    | .parameter => some .hint
    | _ => none

def unusedDiagnostics (graph : ScopeGraph) : List Diagnostic :=
  graph.declarations.filterMap fun declaration =>
    (unusedSeverity? declaration).map fun severity =>
      ⟨.semantic (.unused declaration.name), severity, declaration.span⟩

end Squirrel.Analysis

namespace Squirrel

/-- What is known about the names of a program. `complete` says that the walk was not cut. -/
structure Analysis where
  graph : ScopeGraph
  references : List Analysis.Reference
  inheritances : List Analysis.Inheritance
  diagnostics : List Diagnostic
  openBases : List (Option String)
  complete : Bool

def Analysis.nothing : Analysis := ⟨.empty, [], [], [], [], false⟩

/-- What the walk collects, up to where the nesting gets too deep. -/
def walkTree? [NestingLimit] (tree : Tree) : Except Analysis.Breakdown (Analysis.State × Bool) :=
  match Analysis.walk nestingLimit tree .initial with
  | .ok _ state => .ok (state, true)
  | .error .tooDeep state => .ok (state, false)
  | .error (.breakdown cause) _ => .error cause

/-- Names are resolved when all of them have been collected. -/
def resolve? (known : List String) (state : Analysis.State) :
    Except GraphError Analysis.Resolved := do
  let linked ← state.inheritances.foldlM Analysis.resolveInheritance
    ⟨state.graph, state.diagnostics, []⟩
  state.references.foldlM (Analysis.resolveReference known) linked

/-- The diagnostics stand in the order in which they arise. -/
def analyzeTree? [NestingLimit] (known : List String) (tree : Tree) :
    Except Analysis.Breakdown Analysis := do
  let (state, complete) ← walkTree? tree
  let resolved ← (resolve? known state).mapError .outOfRange
  return {
    graph := resolved.graph
    references := state.references
    inheritances := state.inheritances
    diagnostics := resolved.diagnostics ++ Analysis.unusedDiagnostics resolved.graph
    openBases := resolved.openBases
    complete := complete }

def analyzeTree [NestingLimit] (known : List String) (tree : Tree) : Analysis :=
  (analyzeTree? known tree).toOption.getD .nothing

/-- All that is wrong with a text, in source order. -/
def analyze [NestingLimit] (known : List String) (source : String) : List Diagnostic :=
  let parsed := parse source
  Diagnostic.inSourceOrder (parsed.diagnostics ++ (analyzeTree known parsed.tree).diagnostics)

end Squirrel
