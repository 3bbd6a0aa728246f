import Squirrel.Span

/-! Scopes and the names they declare. -/

namespace Squirrel

inductive ScopeKind where
  | root | function | table | block
  deriving DecidableEq, Repr

inductive DeclarationKind where
  | localVariable | tableSlot | parameter | function | hookParameter | constant
  deriving DecidableEq, Repr

/-- Scopes are numbered from zero, the root scope. -/
abbrev ScopeId : Type := Nat

abbrev DeclarationId : Type := Nat

/-- `seq` is the place in the order of the walk. `tableScope` is the scope of the table that the
name was bound to, and a `quiet` declaration is never reported as unused. -/
structure Declaration where
  name : String
  kind : DeclarationKind
  span : Span
  scope : ScopeId
  seq : Nat
  reads : Nat
  writes : Nat
  tableScope : Option ScopeId
  quiet : Bool
  deriving DecidableEq, Repr

/-- `fallback` is the scope of the table that this one inherits from; an `isOpen` scope inherits
from a base that nobody knows. Names stand in the order of their first declaration. -/
structure Scope where
  kind : ScopeKind
  parent : Option ScopeId
  fallback : Option ScopeId
  isOpen : Bool
  names : List (String × List DeclarationId)
  deriving DecidableEq, Repr

/-- Adds a declaration to those of its name. -/
def addName (name : String) (id : DeclarationId) :
    List (String × List DeclarationId) → List (String × List DeclarationId)
  | [] => [(name, [id])]
  | (other, ids) :: names =>
    if other = name then (other, ids ++ [id]) :: names else (other, ids) :: addName name id names

/-- The declarations of a name in a scope, the latest one last. -/
def Scope.declared (scope : Scope) (name : String) : List DeclarationId :=
  (scope.names.lookup name).getD []

structure ScopeGraph where
  scopes : List Scope
  declarations : List Declaration
  deriving DecidableEq, Repr

/-- A number that stands for no scope, or for no declaration. -/
inductive GraphError where
  | noScope (id : ScopeId)
  | noDeclaration (id : DeclarationId)
  deriving DecidableEq, Repr

def GraphError.message : GraphError → String
  | .noScope _ => "list index out of range"
  | .noDeclaration _ => "list index out of range"

namespace ScopeGraph

def empty : ScopeGraph := ⟨[], []⟩

def root : ScopeId := 0

def scope (graph : ScopeGraph) (id : ScopeId) : Except GraphError Scope :=
  match graph.scopes[id]? with
  | some found => .ok found
  | none => .error (.noScope id)

def updateScope (graph : ScopeGraph) (id : ScopeId) (update : Scope → Scope) : ScopeGraph :=
  { graph with scopes := graph.scopes.modify id update }

def updateDeclaration (graph : ScopeGraph) (id : DeclarationId)
    (update : Declaration → Declaration) : ScopeGraph :=
  { graph with declarations := graph.declarations.modify id update }

def addScope (graph : ScopeGraph) (kind : ScopeKind) (parent : Option ScopeId) : ScopeGraph :=
  { graph with scopes := graph.scopes ++ [⟨kind, parent, none, false, []⟩] }

/-- The latest declaration of a name in one scope. -/
def latest? (graph : ScopeGraph) (id : ScopeId) (name : String) : Option DeclarationId :=
  graph.scopes[id]?.bind fun scope => (scope.declared name).getLast?

/-- The new declaration takes the next number. -/
def declare (graph : ScopeGraph) (id : ScopeId) (name : String) (kind : DeclarationKind)
    (span : Span) (seq : Nat) : ScopeGraph :=
  let declared : ScopeGraph := { graph with
    declarations := graph.declarations ++ [⟨name, kind, span, id, seq, 0, 0, none, false⟩] }
  declared.updateScope id fun scope =>
    { scope with names := addName name graph.declarations.length scope.names }

def isBefore (graph : ScopeGraph) (seq : Nat) (id : DeclarationId) : Bool :=
  graph.declarations[id]?.any (·.seq < seq)

/-- Slots of a table exist before any of them is evaluated, and code inside functions sees every
name of the root scope. All else is seen from its declaration on. -/
def isVisible (graph : ScopeGraph) (scope : Scope) (seq : Nat) (deferred : Bool)
    (id : DeclarationId) : Bool :=
  scope.kind = .table || (scope.kind = .root && deferred) || graph.isBefore seq id

/-- The latest declaration of a name in `scope` that is seen from `seq`. -/
def visible? (graph : ScopeGraph) (scope : Scope) (name : String) (seq : Nat) (deferred : Bool) :
    Option DeclarationId :=
  (scope.declared name).reverse.find? (graph.isVisible scope seq deferred)

/-- The scopes that a chain of fallbacks goes through, up to one in `passed`. -/
def fallbackChain (graph : ScopeGraph) : Nat → List ScopeId → Option ScopeId → List ScopeId
  | 0, _, _ => []
  | _ + 1, _, none => []
  | fuel + 1, passed, some id =>
    if passed.contains id then []
    else id :: graph.fallbackChain fuel (id :: passed) (graph.scopes[id]?.bind (·.fallback))

def parentChain (graph : ScopeGraph) : Nat → Option ScopeId → List ScopeId
  | 0, _ => []
  | _ + 1, none => []
  | fuel + 1, some id =>
    id :: graph.parentChain fuel (graph.scopes[id]?.bind (·.parent))

/-- As long as a chain can be before it repeats itself or leaves the graph. -/
def chainBound (graph : ScopeGraph) : Nat := graph.scopes.length + 1

/-- A scope on the way of a name, and whether it is there by inheritance. -/
structure Visit where
  scope : ScopeId
  inherited : Bool
  deriving DecidableEq, Repr

/-- The scopes that `id` inherits from, the nearest one first. -/
def inheritedVisits (graph : ScopeGraph) (id : ScopeId) : List Visit :=
  (graph.fallbackChain graph.chainBound [id] (graph.scopes[id]?.bind (·.fallback))).map (⟨·, true⟩)

/-- Where a name is looked for: in each scope around, and after it in those it inherits from. -/
def visits (graph : ScopeGraph) (id : ScopeId) : List Visit :=
  (graph.parentChain graph.chainBound (some id)).flatMap fun around =>
    ⟨around, false⟩ :: graph.inheritedVisits around

/-- A declaration, if one was found, and whether an open scope was passed before it. -/
structure Resolution where
  declaration? : Option DeclarationId
  passedOpen : Bool
  deriving DecidableEq, Repr

/-- Of an inherited scope every declaration is seen. -/
def declarationAt? (graph : ScopeGraph) (scope : Scope) (inherited : Bool) (name : String)
    (seq : Nat) (deferred : Bool) : Option DeclarationId :=
  if inherited then (scope.declared name).getLast? else graph.visible? scope name seq deferred

def search (graph : ScopeGraph) (name : String) (seq : Nat) (deferred : Bool) (passedOpen : Bool) :
    List Visit → Except GraphError Resolution
  | [] => .ok ⟨none, passedOpen⟩
  | visit :: visits => do
    let scope ← graph.scope visit.scope
    match graph.declarationAt? scope visit.inherited name seq deferred with
    | some found => .ok ⟨some found, passedOpen⟩
    | none => graph.search name seq deferred (passedOpen || scope.isOpen) visits

def lookup (graph : ScopeGraph) (id : ScopeId) (name : String) (seq : Nat) (deferred : Bool) :
    Except GraphError Resolution :=
  graph.search name seq deferred false (graph.visits id)

/-- Looks only into the scopes that `id` inherits from. -/
def lookupInherited (graph : ScopeGraph) (id : ScopeId) (name : String) :
    Except GraphError Resolution := do
  let scope ← graph.scope id
  graph.search name 0 false scope.isOpen (graph.inheritedVisits id)

/-- A name of the root scope: the latest declaration before `seq`, or else the latest of all. -/
def findRoot (graph : ScopeGraph) (name : String) (seq : Nat) :
    Except GraphError (Option DeclarationId) := do
  let declared := (← graph.scope root).declared name
  return (declared.reverse.find? (graph.isBefore seq)).or declared.getLast?

/-- Whether `id` is on a chain; all scopes before it have to exist. -/
def occursOn (graph : ScopeGraph) (id : ScopeId) : List ScopeId → Except GraphError Bool
  | [] => .ok false
  | next :: chain =>
    if next = id then .ok true
    else do
      let _ ← graph.scope next
      graph.occursOn id chain

/-- Lets a scope inherit from `target`, unless `target` inherits from it. -/
def linkFallback (graph : ScopeGraph) (id target : ScopeId) :
    Except GraphError (Bool × ScopeGraph) := do
  if ← graph.occursOn id (graph.fallbackChain graph.chainBound [] (some target)) then
    return (false, graph)
  else
    let _ ← graph.scope id
    return (true, graph.updateScope id ({ · with fallback := some target }))

end ScopeGraph

end Squirrel
