import Squirrel.Scope.Graph

/-! Changes to a scope graph by number, where a number may stand for nothing. -/

namespace Squirrel.ScopeGraph

def declaration (graph : ScopeGraph) (id : DeclarationId) : Except GraphError Declaration :=
  match graph.declarations[id]? with
  | some found => .ok found
  | none => .error (.noDeclaration id)

/-- Gives the new number and the one of the declaration before. The declaration is there even if
its scope is not. -/
def tryDeclare (graph : ScopeGraph) (id : ScopeId) (name : String) (kind : DeclarationKind)
    (span : Span) (seq : Nat) :
    Except GraphError (DeclarationId × Option DeclarationId) × ScopeGraph :=
  ((graph.scope id).map fun _ => (graph.declarations.length, graph.latest? id name),
    graph.declare id name kind span seq)

def trySetFallback (graph : ScopeGraph) (id : ScopeId) (target : Option ScopeId) :
    Except GraphError ScopeGraph := do
  let _ ← graph.scope id
  return graph.updateScope id ({ · with fallback := target })

def trySetOpen (graph : ScopeGraph) (id : ScopeId) (isOpen : Bool) :
    Except GraphError ScopeGraph := do
  let _ ← graph.scope id
  return graph.updateScope id ({ · with isOpen := isOpen })

def trySetTableScope (graph : ScopeGraph) (id : DeclarationId)
    (target : Option ScopeId) : Except GraphError ScopeGraph := do
  let _ ← graph.declaration id
  return graph.updateDeclaration id ({ · with tableScope := target })

def tryVisible (graph : ScopeGraph) (id : ScopeId) (name : String) (seq : Nat) (deferred : Bool) :
    Except GraphError (Option DeclarationId) :=
  (graph.scope id).map fun scope => graph.visible? scope name seq deferred

end Squirrel.ScopeGraph
