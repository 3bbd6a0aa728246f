import Squirrel.Proofs.Analysis.Collected
import Squirrel.Proofs.Analysis.Heirs
import Squirrel.Proofs.Safety
import Squirrel.Proofs.Scope.History

/-! Every table that inherits is settled: it gets a link, it is left open, or its link is refused. -/

namespace Squirrel.Analysis

variable {α β : Type} {state before after : State}

section Settling

variable {graph : ScopeGraph} {resolved next : Resolved} {inheritance : Inheritance}

def isCyclic (diagnostic : Diagnostic) : Bool :=
  match diagnostic.fault with
  | .semantic (.cyclicInheritance _) => true
  | _ => false

def baseName? : Tree → Option String
  | .node .reference (.leaf token :: _) => some token.text
  | .node .rootReference [_, .leaf token] | .node .member [_, _, .leaf token] => some token.text
  | .node .literal (.leaf token :: _) =>
    if token.kind = .string ∨ token.kind = .verbatimString then
      some (String.ofList (pathName token.text.toList))
    else none
  | _ => none

def cyclicAt (inheritance : Inheritance) : Diagnostic :=
  ⟨.semantic (.cyclicInheritance ((baseName? inheritance.base).getD "")), .error,
    inheritance.base.span⟩

/-- A table that neither inherits from a known table nor is open to an unknown one. -/
def isRefused (graph : ScopeGraph) (inheritance : Inheritance) : Bool :=
  graph.scopes[inheritance.tableScope]?.all fun scope => scope.fallback.isNone && !scope.isOpen

/-- Each call has a table of its own, which is not both linked and open. A cycle is reported for
those that are neither, once for each, and for no others. -/
structure Settled (analysis : Analysis) : Prop where
  distinct : (analysis.inheritances.map (·.tableScope)).Nodup
  exclusive : ∀ inheritance ∈ analysis.inheritances, ∃ scope,
    analysis.graph.scopes[inheritance.tableScope]? = some scope ∧
      ¬ (scope.fallback.isSome ∧ scope.isOpen)
  refused : analysis.diagnostics.filter isCyclic =
    (analysis.inheritances.filter (isRefused analysis.graph)).map cyclicAt

/-- What is settled when some tables have been linked: all the others are as they were. -/
structure Settles (start : ScopeGraph) (done : List Inheritance) (resolved : Resolved) : Prop where
  kinds : resolved.graph.scopes.map (·.kind) = start.scopes.map (·.kind)
  declarations : resolved.graph.declarations = start.declarations
  others : ∀ id scope, resolved.graph.scopes[id]? = some scope →
    id ∉ done.map (·.tableScope) → scope.fallback = none ∧ scope.isOpen = false
  exclusive : ∀ scope ∈ resolved.graph.scopes,
    ¬ (scope.fallback.isSome ∧ scope.isOpen)
  refused : resolved.diagnostics.filter isCyclic =
    (done.filter (isRefused resolved.graph)).map cyclicAt

variable {done : List Inheritance} {start : ScopeGraph}

theorem Settles.update (settles : Settles start done resolved)
    (fresh : inheritance.tableScope ∉ done.map (·.tableScope)) {scope : Scope}
    (found : resolved.graph.scopes[inheritance.tableScope]? = some scope) {update : Scope → Scope}
    (settled : scope.fallback = none ∧ scope.isOpen = false →
      (update scope).fallback.isSome = !(update scope).isOpen)
    (keeps : ∀ own, (update own).kind = own.kind) (openBases : List (Option String)) :
    Settles start (done ++ [inheritance])
      ⟨resolved.graph.updateScope inheritance.tableScope update, resolved.diagnostics,
        openBases⟩ := by
  have changed := settled (settles.others _ scope found fresh)
  have later : (resolved.graph.updateScope inheritance.tableScope update).scopes[
      inheritance.tableScope]? = some (update scope) := by
    rw [ScopeGraph.updateScope, List.getElem?_modify, found]
    simp
  constructor
  · exact (map_modify keeps).trans settles.kinds
  · exact settles.declarations
  · intro id own isOwn listed
    rw [List.map_append, List.mem_append, not_or] at listed
    have different : inheritance.tableScope ≠ id := fun same => listed.2 (by simp [same])
    obtain ⟨earlier, isEarlier, rfl⟩ := ScopeGraph.of_getElem_updateScope isOwn
    rw [if_neg different]
    exact settles.others id earlier isEarlier listed.1
  · intro own member
    obtain ⟨id, isOwn⟩ := List.getElem?_of_mem member
    obtain ⟨earlier, isEarlier, rfl⟩ := ScopeGraph.of_getElem_updateScope isOwn
    split
    · next same =>
      cases found.symm.trans (same ▸ isEarlier)
      rw [changed]
      simp
    · exact settles.exclusive earlier (List.mem_of_getElem? isEarlier)
  · have own : isRefused (resolved.graph.updateScope inheritance.tableScope update) inheritance =
        false := by
      rw [isRefused, later, Option.all_some, ← Option.not_isSome, changed]
      simp
    have kept : ∀ other ∈ done,
        isRefused (resolved.graph.updateScope inheritance.tableScope update) other =
          isRefused resolved.graph other := by
      intro other member
      have different : inheritance.tableScope ≠ other.tableScope :=
        fun same => fresh (List.mem_map.mpr ⟨other, member, same.symm⟩)
      rw [isRefused, isRefused, ScopeGraph.updateScope, List.getElem?_modify_ne _ _ different]
    rw [List.filter_append, List.filter_singleton, own, List.filter_congr kept]
    simpa using settles.refused

theorem Settles.refuse (settles : Settles start done resolved)
    (fresh : inheritance.tableScope ∉ done.map (·.tableScope)) :
    Settles start (done ++ [inheritance])
      { resolved with diagnostics := resolved.diagnostics ++ [cyclicAt inheritance] } := by
  have own : isRefused resolved.graph inheritance := by
    unfold isRefused
    cases found : resolved.graph.scopes[inheritance.tableScope]? with
    | none => rfl
    | some scope =>
      have same := settles.others _ scope found fresh
      simp [same.1, same.2]
  refine { settles with others := fun id scope found listed => ?_, refused := ?_ }
  · rw [List.map_append, List.mem_append, not_or] at listed
    exact settles.others id scope found listed.1
  · rw [List.filter_append, List.filter_append, settles.refused, List.filter_singleton,
      List.filter_singleton, own, List.map_append]
    rfl

variable {known : List String}

end Settling

end Squirrel.Analysis

namespace Squirrel

open Analysis

def bareLeaf (kind : Kind) (text : String) : Tree := .leaf ⟨⟨kind, text⟩, ⟨0, 0, 1, 1⟩, [], []⟩

def bareUse (name : String) : Tree := .node .reference [bareLeaf .identifier name]

def memberChain : Nat → Tree
  | 0 => .node .literal [bareLeaf .integer "1"]
  | links + 1 =>
    .node .member [memberChain links, bareLeaf .dot ".", bareLeaf .identifier "b"]

def returned (value : Tree) : Tree := .node .returnStatement [bareLeaf .kwReturn "return", value]

def bareSlot (name : String) (value : Tree) : Tree :=
  .node .tableSlot [bareLeaf .identifier name, bareLeaf .assign "=", value]

end Squirrel
