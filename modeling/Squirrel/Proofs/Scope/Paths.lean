import Mathlib.Data.List.Perm.Subperm
import Squirrel.Proofs.Scope.InRange

/-! The way from a scope to the root, with all that is inherited on it. -/

namespace Squirrel.ScopeGraph

variable {graph : ScopeGraph} {id target : ScopeId} {bases : List ScopeId} {visits : List Visit}

/-- The scopes that one inherits from, the nearest one first, up to one that inherits nothing. -/
inductive Inherits (graph : ScopeGraph) : ScopeId → List ScopeId → Prop
  | nothing {id : ScopeId} {scope : Scope} (found : graph.scopes[id]? = some scope)
      (ends : scope.fallback = none) : Inherits graph id []
  | base {id next : ScopeId} {scope : Scope} {bases : List ScopeId}
      (found : graph.scopes[id]? = some scope) (linked : scope.fallback = some next)
      (rest : Inherits graph next bases) : Inherits graph id (next :: bases)

/-- A scope and those it inherits from, then the scope around it and those that one inherits from,
and so on to the root. -/
inductive Path (graph : ScopeGraph) : ScopeId → List Visit → Prop
  | root {scope : Scope} {bases : List ScopeId} (found : graph.scopes[root]? = some scope)
      (outermost : scope.parent = none) (inherits : Inherits graph root bases) :
      Path graph root (⟨root, false⟩ :: bases.map (⟨·, true⟩))
  | inner {id around : ScopeId} {scope : Scope} {bases : List ScopeId} {visits : List Visit}
      (found : graph.scopes[id]? = some scope) (nested : scope.parent = some around)
      (inherits : Inherits graph id bases) (rest : Path graph around visits) :
      Path graph id (⟨id, false⟩ :: bases.map (⟨·, true⟩) ++ visits)

section Inheriting

theorem Inherits.unique {others : List ScopeId} (one : Inherits graph id bases)
    (other : Inherits graph id others) : bases = others := by
  induction one generalizing others with
  | nothing found ends =>
    cases other with
    | nothing => rfl
    | base again linked =>
      cases found.symm.trans again
      rw [ends] at linked
      cases linked
  | base found linked _ ih =>
    cases other with
    | nothing again ends =>
      cases found.symm.trans again
      rw [ends] at linked
      cases linked
    | base again alsoLinked rest =>
      cases found.symm.trans again
      cases linked.symm.trans alsoLinked
      rw [ih rest]

variable (inherits : Inherits graph id bases)

include inherits

theorem Inherits.inside : ∀ base ∈ id :: bases, base < graph.scopes.length := by
  induction inherits with
  | nothing found => simpa using (List.getElem?_eq_some_iff.mp found).1
  | base found _ _ ih =>
    exact List.forall_mem_cons.mpr ⟨(List.getElem?_eq_some_iff.mp found).1, ih⟩

theorem Inherits.shorter :
    ∀ base ∈ bases, ∃ rest, Inherits graph base rest ∧ rest.length < bases.length := by
  induction inherits with
  | nothing => simp
  | @base _ _ _ bases _ _ rest ih =>
    refine List.forall_mem_cons.mpr ⟨⟨bases, rest, by simp⟩, fun base member => ?_⟩
    obtain ⟨others, further, fewer⟩ := ih base member
    exact ⟨others, further, Nat.lt_trans fewer (by simp)⟩

theorem Inherits.not_mem : id ∉ bases := by
  intro member
  obtain ⟨rest, again, fewer⟩ := inherits.shorter id member
  rw [inherits.unique again] at fewer
  exact Nat.lt_irrefl _ fewer

theorem Inherits.nodup : (id :: bases).Nodup := by
  induction inherits with
  | nothing => simp
  | base found linked rest ih => exact List.nodup_cons.mpr ⟨(base found linked rest).not_mem, ih⟩

theorem Inherits.length_lt : bases.length < graph.scopes.length := by
  have within : id :: bases ⊆ List.range graph.scopes.length :=
    fun base member => List.mem_range.mpr (inherits.inside base member)
  have fewer := (List.subperm_of_subset inherits.nodup within).length_le
  rwa [List.length_cons, List.length_range] at fewer

theorem Inherits.fallbackChain {fuel : Nat} {passed : List ScopeId} (enough : bases.length < fuel)
    (fresh : ∀ base ∈ id :: bases, base ∉ passed) :
    graph.fallbackChain fuel passed (some id) = id :: bases := by
  induction inherits generalizing fuel passed with
  | @nothing id scope found ends =>
    obtain ⟨fuel, rfl⟩ := Nat.exists_eq_succ_of_ne_zero (Nat.ne_of_gt enough)
    have first : passed.contains id = false := by simpa using fresh id
    rw [ScopeGraph.fallbackChain, first, found, Option.bind_some, ends]
    cases fuel <;> simp [ScopeGraph.fallbackChain]
  | @base id next scope bases found linked rest ih =>
    obtain ⟨fuel, rfl⟩ := Nat.exists_eq_succ_of_ne_zero (Nat.ne_zero_of_lt enough)
    obtain ⟨isNew, others⟩ := List.forall_mem_cons.mp fresh
    have first : passed.contains id = false := by simpa using isNew
    have different : id ∉ next :: bases := (Inherits.base found linked rest).not_mem
    have still : ∀ base ∈ next :: bases, base ∉ id :: passed := by
      intro base member old
      rcases List.mem_cons.mp old with rfl | earlier
      · exact different member
      · exact others base member earlier
    rw [ScopeGraph.fallbackChain, first, found, Option.bind_some, linked,
      ih (Nat.lt_of_succ_lt_succ enough) still]
    rfl

theorem Inherits.inheritedVisits : graph.inheritedVisits id = bases.map (⟨·, true⟩) := by
  have different := inherits.not_mem
  have bounded := inherits.length_lt
  unfold ScopeGraph.inheritedVisits
  cases inherits with
  | nothing found ends =>
    rw [found, Option.bind_some, ends]
    rfl
  | base found linked rest =>
    rw [found, Option.bind_some, linked, rest.fallbackChain]
    · rw [chainBound]
      exact Nat.lt_succ_of_lt (Nat.lt_of_succ_lt bounded)
    · intro base member passed
      rw [List.mem_singleton.mp passed] at member
      exact different member

end Inheriting

theorem search_inherited (name : String) (seq : Nat) (deferred passedOpen : Bool)
    (inside : ∀ base ∈ bases, base < graph.scopes.length) :
    ∃ found, graph.search name seq deferred passedOpen (bases.map (⟨·, true⟩)) = .ok found ∧
      found.declaration? = bases.findSome? (graph.latest? · name) := by
  induction bases generalizing passedOpen with
  | nil => exact ⟨_, rfl, rfl⟩
  | cons base bases ih =>
    obtain ⟨first, others⟩ := List.forall_mem_cons.mp inside
    obtain ⟨scope, -, given⟩ := scope_ok first
    have listed : graph.latest? base name = (scope.declared name).getLast? := by
      rw [latest?, getElem_of_scope given, Option.bind_some]
    rw [List.map_cons, search, given, List.findSome?_cons, listed]
    have seen : graph.declarationAt? scope true name seq deferred =
        (scope.declared name).getLast? := if_pos rfl
    simp only [bind, Except.bind, seen]
    cases (scope.declared name).getLast? with
    | none => exact ih _ others
    | some found => exact ⟨_, rfl, rfl⟩

/-- A name is looked for in the scopes that one inherits from, the nearest one first, and the latest
declaration there is found, whenever it was made. -/
theorem Inherits.lookupInherited (inherits : Inherits graph id bases) (name : String) :
    ∃ found, graph.lookupInherited id name = .ok found ∧
      found.declaration? = bases.findSome? (graph.latest? · name) := by
  obtain ⟨inside, others⟩ := List.forall_mem_cons.mp inherits.inside
  obtain ⟨scope, -, given⟩ := scope_ok inside
  rw [ScopeGraph.lookupInherited, given, inherits.inheritedVisits]
  exact search_inherited name 0 false scope.isOpen others

def Nested (graph : ScopeGraph) : Prop :=
  ∀ id scope, graph.scopes[id]? = some scope →
    (scope.parent = none ∧ id = root) ∨ ∃ around < id, scope.parent = some around

def Acyclic (graph : ScopeGraph) : Prop :=
  ∀ id < graph.scopes.length, ∃ bases, Inherits graph id bases

section Walking

theorem Path.unique {others : List Visit} (one : Path graph id visits)
    (other : Path graph id others) : visits = others := by
  induction one generalizing others with
  | root found outermost inherits =>
    cases other with
    | root _ _ again => rw [inherits.unique again]
    | inner again nested =>
      cases found.symm.trans again
      rw [outermost] at nested
      cases nested
  | inner found nested inherits rest ih =>
    cases other with
    | root again outermost =>
      cases found.symm.trans again
      rw [outermost] at nested
      cases nested
    | inner again alsoNested alsoInherits further =>
      cases found.symm.trans again
      cases nested.symm.trans alsoNested
      rw [inherits.unique alsoInherits, ih further]

theorem path_parentChain (nested : graph.Nested) (acyclic : graph.Acyclic) {fuel : Nat}
    (inside : id < graph.scopes.length) (enough : id < fuel) :
    Path graph id ((graph.parentChain fuel (some id)).flatMap fun around =>
      ⟨around, false⟩ :: graph.inheritedVisits around) := by
  induction fuel generalizing id with
  | zero => exact absurd enough (Nat.not_lt_zero id)
  | succ fuel ih =>
    have found := List.getElem?_eq_getElem inside
    obtain ⟨bases, inherits⟩ := acyclic id inside
    rw [parentChain, List.flatMap_cons, inherits.inheritedVisits, found, Option.bind_some]
    rcases nested id _ found with ⟨outermost, rfl⟩ | ⟨around, smaller, within⟩
    · have ends : graph.parentChain fuel none = [] := by cases fuel <;> rfl
      rw [outermost, ends, List.flatMap_nil, List.append_nil]
      exact .root found outermost inherits
    · rw [within]
      exact .inner found within inherits
        (ih (Nat.lt_trans smaller inside) (Nat.lt_of_lt_of_le smaller (Nat.le_of_lt_succ enough)))

theorem path_visits (nested : graph.Nested) (acyclic : graph.Acyclic)
    (inside : id < graph.scopes.length) : Path graph id (graph.visits id) :=
  path_parentChain nested acyclic inside (Nat.lt_succ_of_lt inside)

end Walking

section Redeclaring

/-! Only the scopes of a graph matter for the way of a name. -/

variable (declarations : List Declaration)

theorem fallbackChain_redeclare (fuel : Nat) (passed : List ScopeId) (start : Option ScopeId) :
    fallbackChain { graph with declarations := declarations } fuel passed start =
      graph.fallbackChain fuel passed start := by
  induction fuel generalizing passed start with
  | zero => rfl
  | succ fuel ih =>
    cases start with
    | none => rfl
    | some id => simp only [fallbackChain, ih]

theorem parentChain_redeclare (fuel : Nat) (start : Option ScopeId) :
    parentChain { graph with declarations := declarations } fuel start =
      graph.parentChain fuel start := by
  induction fuel generalizing start with
  | zero => rfl
  | succ fuel ih =>
    cases start with
    | none => rfl
    | some id => simp only [parentChain, ih]

theorem visits_redeclare (id : ScopeId) :
    ScopeGraph.visits { graph with declarations := declarations } id = graph.visits id := by
  unfold ScopeGraph.visits inheritedVisits
  simp only [parentChain_redeclare, fallbackChain_redeclare]
  rfl

theorem Acyclic.redeclare (acyclic : graph.Acyclic) :
    Acyclic { graph with declarations := declarations } := by
  intro id inside
  obtain ⟨bases, inherits⟩ := acyclic id inside
  refine ⟨bases, ?_⟩
  induction inherits with
  | nothing found ends => exact .nothing found ends
  | base found linked rest ih => exact .base found linked (ih (rest.inside _ (by simp)))

end Redeclaring

section Linking

variable {update : Scope → Scope}

theorem getElem_updateScope {scope : Scope} (found : graph.scopes[id]? = some scope)
    (different : id ≠ target) : (graph.updateScope target update).scopes[id]? = some scope := by
  rw [ScopeGraph.updateScope, List.getElem?_modify_ne _ _ different.symm, found]

theorem Inherits.updateScope (inherits : Inherits graph id bases) (apart : target ∉ id :: bases) :
    Inherits (graph.updateScope target update) id bases := by
  induction inherits with
  | nothing found ends =>
    exact .nothing (getElem_updateScope found (Ne.symm (by simpa using apart))) ends
  | base found linked _ ih =>
    have different := Ne.symm (List.ne_of_not_mem_cons apart)
    exact .base (getElem_updateScope found different) linked (ih (List.not_mem_of_not_mem_cons apart))

theorem Acyclic.relink (acyclic : graph.Acyclic) (inside : id < graph.scopes.length)
    (inherits : Inherits graph target bases) (apart : id ∉ target :: bases) :
    (graph.updateScope id ({ · with fallback := some target })).Acyclic := by
  have found : (graph.updateScope id ({ · with fallback := some target })).scopes[id]? =
      some { graph.scopes[id] with fallback := some target } := by
    simp [ScopeGraph.updateScope, inside]
  have relinked := Inherits.base found rfl (inherits.updateScope apart)
  intro other within
  rw [length_updateScope] at within
  obtain ⟨others, inherited⟩ := acyclic other within
  -- All others keep their link, so their chains go on until they end or come to `id`.
  induction inherited with
  | @nothing other _ kept ends =>
    by_cases same : other = id
    · rw [same]
      exact ⟨_, relinked⟩
    · exact ⟨_, .nothing (getElem_updateScope kept same) ends⟩
  | @base other next _ _ kept linked rest ih =>
    by_cases same : other = id
    · rw [same]
      exact ⟨_, relinked⟩
    · obtain ⟨further, onward⟩ := ih (rest.inside next (by simp))
      exact ⟨_, .base (getElem_updateScope kept same) linked onward⟩

theorem occursOn_eq {chain : List ScopeId} {answer : Bool}
    (answered : graph.occursOn id chain = .ok answer) : answer = decide (id ∈ chain) := by
  induction chain with
  | nil =>
    cases answered
    rfl
  | cons next chain ih =>
    rw [occursOn] at answered
    split at answered
    · next same =>
      cases answered
      simp [same]
    · next different =>
      cases given : graph.scope next with
      | error error =>
        rw [given] at answered
        cases answered
      | ok scope =>
        rw [given] at answered
        rw [ih answered, decide_eq_decide, List.mem_cons]
        exact ⟨.inr, fun member => member.resolve_left (Ne.symm different)⟩

theorem Acyclic.linkFallback (acyclic : graph.Acyclic) {linked : Bool} {after : ScopeGraph}
    (inside : id < graph.scopes.length) (targetInside : target < graph.scopes.length)
    (done : graph.linkFallback id target = .ok (linked, after)) : after.Acyclic := by
  obtain ⟨bases, inherits⟩ := acyclic target targetInside
  obtain ⟨scope, -, given⟩ := scope_ok inside
  have chain : graph.fallbackChain graph.chainBound [] (some target) = target :: bases :=
    inherits.fallbackChain (Nat.lt_succ_of_lt inherits.length_lt) (by simp)
  obtain ⟨answer, answered⟩ := occursOn_ok id inherits.inside
  have meaning := occursOn_eq answered
  rw [ScopeGraph.linkFallback, chain, answered] at done
  cases answer with
  | true =>
    cases done
    exact acyclic
  | false =>
    simp only [given] at done
    cases done
    exact acyclic.relink inside inherits (of_decide_eq_false meaning.symm)

/-- A link that is made sets the fallback. -/
theorem trySetFallback_of_linkFallback {after : ScopeGraph}
    (done : graph.linkFallback id target = .ok (true, after)) :
    graph.trySetFallback id (some target) = .ok after := by
  unfold ScopeGraph.linkFallback at done
  cases answered : graph.occursOn id (graph.fallbackChain graph.chainBound [] (some target)) with
  | error error =>
    rw [answered] at done
    cases done
  | ok answer =>
    rw [answered] at done
    cases answer with
    | true => cases done
    | false =>
      cases given : graph.scope id with
      | error error =>
        simp only [given] at done
        cases done
      | ok scope =>
        simp only [given] at done
        cases done
        rw [trySetFallback, given]
        rfl

/-- The first step of looking up a name: what is seen in the scope itself. -/
theorem tryVisible_eq_search (name : String) (seq : Nat) (deferred : Bool) :
    graph.tryVisible id name seq deferred =
      (graph.search name seq deferred false [⟨id, false⟩]).map (·.declaration?) := by
  rw [tryVisible, search]
  cases graph.scope id with
  | error error => rfl
  | ok scope =>
    have own : graph.declarationAt? scope false name seq deferred =
        graph.visible? scope name seq deferred := if_neg Bool.false_ne_true
    simp only [bind, Except.bind, Except.map, own]
    cases graph.visible? scope name seq deferred <;> rfl

end Linking

end Squirrel.ScopeGraph
