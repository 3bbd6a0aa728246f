import Squirrel.Diagnostic
import Squirrel.Scope.Edit
import Squirrel.Tree.Shape

/-! What a walk over a tree collects. -/

namespace Squirrel.Analysis

/-- A use of a name. A `deferred` one stands inside a function, which runs later. -/
structure Reference where
  name : String
  scope : ScopeId
  seq : Nat
  deferred : Bool
  span : Span
  isCall : Bool
  isRead : Bool
  isWrite : Bool
  deriving DecidableEq, Repr

/-- A table that inherits from what `base` stands for. -/
structure Inheritance where
  tableScope : ScopeId
  base : Tree
  scope : ScopeId
  seq : Nat
  deferred : Bool
  deriving Repr

structure State where
  graph : ScopeGraph
  scope : ScopeId
  seq : Nat
  functionDepth : Nat
  references : List Reference
  inheritances : List Inheritance
  diagnostics : List Diagnostic
  deriving Repr

def State.initial : State :=
  ⟨ScopeGraph.empty.addScope .root none, ScopeGraph.root, 0, 0, [], [], []⟩

/-- What a walk cannot make anything of: a node that is not made of what its label asks for, or a
number that stands for nothing. -/
inductive Breakdown where
  | misshapen (label : Label)
  | outOfRange (error : GraphError)
  deriving DecidableEq, Repr

inductive Cut where
  | tooDeep
  | breakdown (cause : Breakdown)
  deriving DecidableEq, Repr

/-- What was collected stays when a walk is cut. -/
abbrev Walk (α : Type) : Type := EStateM Cut State α

def misshapen {α : Type} (label : Label) : Walk α := throw (.breakdown (.misshapen label))

def demand {α : Type} : Except GraphError α → Walk α
  | .ok value => return value
  | .error error => throw (.breakdown (.outOfRange error))

def nextSeq : Walk Nat := do
  modify fun state => { state with seq := state.seq + 1 }
  return (← get).seq

def report (fault : NameFault) (severity : Severity) (span : Span) : Walk Unit :=
  modify fun state =>
    { state with diagnostics := state.diagnostics ++ [⟨.semantic fault, severity, span⟩] }

/-- Walks inside a new scope, and gives its number with the result. -/
def inScope {α : Type} (kind : ScopeKind) (walk : ScopeId → Walk α) : Walk α := do
  let outer := (← get).scope
  let inner := (← get).graph.scopes.length
  modify fun state => { state with graph := state.graph.addScope kind (some outer), scope := inner }
  let result ← walk inner
  modify ({ · with scope := outer })
  return result

/-- Code inside a function runs later than the code around it. -/
def deferring (walk : Walk Unit) : Walk Unit := do
  modify fun state => { state with functionDepth := state.functionDepth + 1 }
  walk
  modify fun state => { state with functionDepth := state.functionDepth - 1 }

def updateDeclaration (id : DeclarationId) (update : Declaration → Declaration) : Walk Unit := do
  let _ ← demand ((← get).graph.declaration id)
  modify fun state => { state with graph := state.graph.updateDeclaration id update }

/-- Declares a name, which takes the next number. The declaration before it comes with the new
one. -/
def bind (scope : ScopeId) (name : String) (kind : DeclarationKind) (span : Span) :
    Walk (DeclarationId × Option DeclarationId) := do
  let seq ← nextSeq
  let (answer, declared) := (← get).graph.tryDeclare scope name kind span seq
  modify ({ · with graph := declared })
  demand answer

/-- Declares a name. Only names of the root scope may be declared again. -/
def declareIn (scope : ScopeId) (name : String) (kind : DeclarationKind) (span : Span) :
    Walk DeclarationId := do
  let (id, previous?) ← bind scope name kind span
  match previous? with
  | some previous =>
    if (← demand ((← get).graph.scope scope)).kind ≠ .root then
      updateDeclaration previous ({ · with quiet := true })
      report (.duplicate name) .error span
    return id
  | none => return id

def declare (token : Token) (kind : DeclarationKind) : Walk DeclarationId := do
  declareIn (← get).scope token.text kind token.span

/-- Declares a name that a malformed statement still shows. -/
def recover (scope : ScopeId) (token : Token) (kind : DeclarationKind) : Walk Unit := do
  let (id, _) ← bind scope token.text kind token.span
  updateDeclaration id ({ · with quiet := true })

def refer (token : Token) (isCall isRead isWrite : Bool) : Walk Unit := do
  let seq ← nextSeq
  modify fun state =>
    { state with
      references := state.references ++ [⟨token.text, state.scope, seq, 0 < state.functionDepth,
        token.span, isCall, isRead, isWrite⟩] }

def read (token : Token) : Walk Unit := refer token false true false

end Squirrel.Analysis
