import Mathlib.Logic.Relation
import Squirrel.Proofs.Scope.Filing

/-! Scope graphs that are built step by step. Whatever the order of the steps, no scope comes to
inherit from itself. -/

namespace Squirrel.ScopeGraph

variable {graph before after : ScopeGraph} {id target : ScopeId} {bases : List ScopeId}

/-- One call that builds a graph: a new scope, a declaration, or a link between two scopes that are
there. -/
inductive Edit : ScopeGraph → ScopeGraph → Prop
  | newScope (graph : ScopeGraph) (kind : ScopeKind) (parent : Option ScopeId) :
    Edit graph (graph.addScope kind parent)
  | declare (graph : ScopeGraph) (id : ScopeId) (name : String) (kind : DeclarationKind)
      (span : Span) (seq : Nat) :
    Edit graph (graph.tryDeclare id name kind span seq).2
  | link {graph after : ScopeGraph} {id target : ScopeId} {linked : Bool}
      (inside : id < graph.scopes.length) (targetInside : target < graph.scopes.length)
      (done : graph.linkFallback id target = .ok (linked, after)) : Edit graph after

def Built (graph : ScopeGraph) : Prop := Relation.ReflTransGen Edit empty graph

def Extends (graph : ScopeGraph) (id base : ScopeId) : Prop :=
  ∃ scope, graph.scopes[id]? = some scope ∧ scope.fallback = some base

/-- The second scope is the first one, or one that it inherits from. -/
def Reaches (graph : ScopeGraph) : ScopeId → ScopeId → Prop :=
  Relation.ReflTransGen graph.Extends

section Reaching

theorem Inherits.reaches (inherits : Inherits graph id bases) :
    ∀ base ∈ id :: bases, graph.Reaches id base := by
  induction inherits with
  | nothing => exact List.forall_mem_singleton.mpr .refl
  | @base id next scope bases found linked rest ih =>
    refine List.forall_mem_cons.mpr ⟨.refl, fun base member => ?_⟩
    exact .head ⟨scope, found, linked⟩ (ih base member)

end Reaching

section Building

theorem acyclic_empty : empty.Acyclic := by
  intro id inside
  cases inside

theorem Acyclic.addScope (acyclic : graph.Acyclic) (kind : ScopeKind) (parent : Option ScopeId) :
    (graph.addScope kind parent).Acyclic := by
  have kept {id : ScopeId} {scope : Scope} (found : graph.scopes[id]? = some scope) :
      (graph.addScope kind parent).scopes[id]? = some scope := by
    obtain ⟨inside, -⟩ := List.getElem?_eq_some_iff.mp found
    rw [ScopeGraph.addScope, List.getElem?_append_left inside, found]
  intro id inside
  rw [length_addScope] at inside
  rcases Nat.lt_or_ge id graph.scopes.length with old | new
  · obtain ⟨bases, inherits⟩ := acyclic id old
    refine ⟨bases, ?_⟩
    induction inherits with
    | nothing found ends => exact .nothing (kept found) ends
    | base found linked rest ih =>
      have next := rest.inside _ List.mem_cons_self
      exact .base (kept found) linked (ih (Nat.lt_succ_of_lt next) next)
  · obtain rfl : id = graph.scopes.length := Nat.le_antisymm (Nat.le_of_lt_succ inside) new
    exact ⟨[], .nothing List.getElem?_concat_length rfl⟩

theorem Acyclic.declare (acyclic : graph.Acyclic) (id : ScopeId) (name : String)
    (kind : DeclarationKind) (span : Span) (seq : Nat) :
    (graph.declare id name kind span seq).Acyclic :=
  (acyclic.redeclare _).updateScope fun _ => rfl

/-- A link is refused if the target leads back to the scope; or else the scope gets it, and nothing
more changes. -/
theorem Inherits.linkFallback (inherits : Inherits graph target bases)
    (inside : id < graph.scopes.length) :
    graph.linkFallback id target = .ok
      (if id ∈ target :: bases then (false, graph)
      else (true, graph.updateScope id ({ · with fallback := some target }))) := by
  have chain : graph.fallbackChain graph.chainBound [] (some target) = target :: bases :=
    inherits.fallbackChain (Nat.lt_succ_of_lt inherits.length_lt) (by simp)
  obtain ⟨answer, answered⟩ := occursOn_ok id inherits.inside
  obtain ⟨scope, -, given⟩ := scope_ok inside
  have meaning := occursOn_eq answered
  rw [ScopeGraph.linkFallback, chain, answered]
  cases answer with
  | true =>
    rw [if_pos (of_decide_eq_true meaning.symm)]
    rfl
  | false =>
    rw [if_neg (of_decide_eq_false meaning.symm)]
    simp only [given]
    rfl

theorem Edit.acyclic (edit : Edit before after) (acyclic : before.Acyclic) : after.Acyclic := by
  cases edit with
  | newScope kind parent => exact acyclic.addScope kind parent
  | declare id name kind span seq => exact acyclic.declare id name kind span seq
  | link inside targetInside done => exact acyclic.linkFallback inside targetInside done

theorem Built.acyclic (built : graph.Built) : graph.Acyclic := by
  induction built with
  | refl => exact acyclic_empty
  | tail _ edit ih => exact edit.acyclic ih

end Building

end Squirrel.ScopeGraph
