import Squirrel.Scope.Edit

/-! Graphs in which every number stands for something. -/

namespace Squirrel

/-- The numbers in a scope stand for something in a graph of so many scopes and declarations. -/
structure Scope.InRange (scopes declarations : Nat) (scope : Scope) : Prop where
  parent : ∀ id ∈ scope.parent, id < scopes
  fallback : ∀ id ∈ scope.fallback, id < scopes
  names : ∀ named ∈ scope.names, ∀ id ∈ named.2, id < declarations

namespace ScopeGraph

variable {graph : ScopeGraph} {id target : ScopeId} {name : String}

/-- There is a root, and every number in the graph stands for something. -/
structure InRange (graph : ScopeGraph) : Prop where
  rooted : root < graph.scopes.length
  scopes : ∀ scope ∈ graph.scopes,
    scope.InRange graph.scopes.length graph.declarations.length
  declarations : ∀ declaration ∈ graph.declarations,
    ∀ id ∈ declaration.tableScope, id < graph.scopes.length

structure Grows (before after : ScopeGraph) : Prop where
  scopes : before.scopes.length ≤ after.scopes.length
  declarations : before.declarations.length ≤ after.declarations.length

theorem Grows.refl (graph : ScopeGraph) : Grows graph graph := ⟨Nat.le_refl _, Nat.le_refl _⟩

theorem Grows.trans {first second third : ScopeGraph} (one : Grows first second)
    (two : Grows second third) : Grows first third :=
  ⟨Nat.le_trans one.scopes two.scopes, Nat.le_trans one.declarations two.declarations⟩

end ScopeGraph

theorem Scope.InRange.mono {scope : Scope} {scopes declarations moreScopes moreDeclarations : Nat}
    (within : scope.InRange scopes declarations) (scopesGrow : scopes ≤ moreScopes)
    (declarationsGrow : declarations ≤ moreDeclarations) :
    scope.InRange moreScopes moreDeclarations where
  parent id isParent := Nat.lt_of_lt_of_le (within.parent id isParent) scopesGrow
  fallback id isFallback := Nat.lt_of_lt_of_le (within.fallback id isFallback) scopesGrow
  names named member id own :=
    Nat.lt_of_lt_of_le (within.names named member id own) declarationsGrow

theorem mem_addName {name : String} {id : DeclarationId}
    {names : List (String × List DeclarationId)} {named : String × List DeclarationId}
    {other : DeclarationId} (member : named ∈ addName name id names) (own : other ∈ named.2) :
    other = id ∨ ∃ earlier ∈ names, other ∈ earlier.2 := by
  induction names with
  | nil =>
    rw [addName, List.mem_singleton] at member
    subst member
    exact .inl (List.mem_singleton.mp own)
  | cons first names ih =>
    obtain ⟨key, ids⟩ := first
    rw [addName] at member
    split at member
    · rcases List.mem_cons.mp member with rfl | later
      · rcases List.mem_append.mp own with earlier | new
        · exact .inr ⟨(key, ids), by simp, earlier⟩
        · exact .inl (List.mem_singleton.mp new)
      · exact .inr ⟨named, by simp [later], own⟩
    · rcases List.mem_cons.mp member with rfl | later
      · exact .inr ⟨(key, ids), by simp, own⟩
      · rcases ih later with same | ⟨earlier, listed, kept⟩
        · exact .inl same
        · exact .inr ⟨earlier, by simp [listed], kept⟩

theorem Scope.InRange.declared {scope : Scope} {scopes declarations : Nat}
    (within : scope.InRange scopes declarations) (name : String) :
    ∀ id ∈ scope.declared name, id < declarations := by
  intro id member
  unfold Scope.declared at member
  cases found : scope.names.lookup name with
  | none => simp [found] at member
  | some ids =>
    obtain ⟨before, after, split, -⟩ := List.lookup_eq_some_iff.mp found
    exact within.names (name, ids) (by simp [split]) id (by simpa [found] using member)

namespace ScopeGraph

variable {graph : ScopeGraph} {id target : ScopeId} {name : String}

theorem inRange_initial (kind : ScopeKind) : (empty.addScope kind none).InRange where
  rooted := Nat.one_pos
  scopes scope member := by
    rw [List.mem_singleton.mp member]
    exact ⟨by simp, by simp, by simp⟩
  declarations declaration member := by cases member

theorem grows_addScope (graph : ScopeGraph) (kind : ScopeKind) (parent : Option ScopeId) :
    Grows graph (graph.addScope kind parent) :=
  ⟨by simp [addScope], Nat.le_refl _⟩

@[simp] theorem length_addScope (kind : ScopeKind) (parent : Option ScopeId) :
    (graph.addScope kind parent).scopes.length = graph.scopes.length + 1 := by
  simp [addScope]

theorem InRange.addScope (within : graph.InRange) (kind : ScopeKind)
    (inside : id < graph.scopes.length) : (graph.addScope kind (some id)).InRange where
  rooted := Nat.lt_of_lt_of_le within.rooted (grows_addScope graph kind (some id)).scopes
  scopes scope member := by
    rw [length_addScope]
    rcases List.mem_append.mp member with old | new
    · exact (within.scopes scope old).mono (Nat.le_succ _) (Nat.le_refl _)
    · rw [List.mem_singleton.mp new]
      exact ⟨by simpa using Nat.lt_succ_of_lt inside, by simp, by simp⟩
  declarations declaration member table isTable := by
    rw [length_addScope]
    exact Nat.lt_succ_of_lt (within.declarations declaration member table isTable)

@[simp] theorem length_updateScope (update : Scope → Scope) :
    (graph.updateScope id update).scopes.length = graph.scopes.length := by
  simp [updateScope]

@[simp] theorem declarations_updateScope (update : Scope → Scope) :
    (graph.updateScope id update).declarations = graph.declarations := rfl

@[simp] theorem scopes_updateDeclaration (update : Declaration → Declaration) :
    (graph.updateDeclaration id update).scopes = graph.scopes := rfl

@[simp] theorem length_updateDeclaration (update : Declaration → Declaration) :
    (graph.updateDeclaration id update).declarations.length = graph.declarations.length := by
  simp [updateDeclaration]

theorem grows_updateDeclaration (graph : ScopeGraph) (id : DeclarationId)
    (update : Declaration → Declaration) : Grows graph (graph.updateDeclaration id update) :=
  ⟨Nat.le_refl _, by simp⟩

theorem mem_modify {α : Type} {values : List α} {index : Nat} {update : α → α} {value : α}
    (member : value ∈ values.modify index update) :
    value ∈ values ∨ ∃ earlier ∈ values, value = update earlier := by
  obtain ⟨place, within, rfl⟩ := List.mem_iff_getElem.mp member
  rw [List.getElem_modify]
  rw [List.length_modify] at within
  split
  · exact .inr ⟨_, List.getElem_mem within, rfl⟩
  · exact .inl (List.getElem_mem within)

theorem InRange.updateScope (within : graph.InRange) {update : Scope → Scope}
    (keeps : ∀ scope : Scope, scope.InRange graph.scopes.length graph.declarations.length →
      (update scope).InRange graph.scopes.length graph.declarations.length) :
    (graph.updateScope id update).InRange where
  rooted := by simpa using within.rooted
  scopes scope member := by
    rw [length_updateScope]
    rcases mem_modify member with same | ⟨earlier, old, rfl⟩
    · exact within.scopes scope same
    · exact keeps earlier (within.scopes earlier old)
  declarations := by simpa using within.declarations

theorem InRange.updateDeclaration (within : graph.InRange) {update : Declaration → Declaration}
    (keeps : ∀ declaration : Declaration,
      (∀ table ∈ declaration.tableScope, table < graph.scopes.length) →
      ∀ table ∈ (update declaration).tableScope, table < graph.scopes.length) :
    (graph.updateDeclaration id update).InRange where
  rooted := within.rooted
  scopes := by simpa using within.scopes
  declarations declaration member := by
    rcases mem_modify member with same | ⟨earlier, old, rfl⟩
    · exact within.declarations declaration same
    · exact keeps earlier (within.declarations earlier old)

@[simp] theorem scopes_declare (kind : DeclarationKind) (span : Span) (seq : Nat) :
    (graph.declare id name kind span seq).scopes.length = graph.scopes.length := by
  simp [declare]

@[simp] theorem declarations_declare (kind : DeclarationKind) (span : Span) (seq : Nat) :
    (graph.declare id name kind span seq).declarations.length = graph.declarations.length + 1 := by
  simp [declare, ScopeGraph.updateScope]

theorem grows_declare (graph : ScopeGraph) (id : ScopeId) (name : String) (kind : DeclarationKind)
    (span : Span) (seq : Nat) : Grows graph (graph.declare id name kind span seq) :=
  ⟨by simp, by simp⟩

theorem InRange.declare (within : graph.InRange) (id : ScopeId) (name : String)
    (kind : DeclarationKind) (span : Span) (seq : Nat) : (graph.declare id name kind span seq).InRange := by
  have declared : InRange { graph with
      declarations := graph.declarations ++ [⟨name, kind, span, id, seq, 0, 0, none, false⟩] } := by
    constructor
    · exact within.rooted
    · intro scope member
      exact (within.scopes scope member).mono (Nat.le_refl _) (by simp)
    · intro declaration member
      rcases List.mem_append.mp member with old | new
      · exact within.declarations declaration old
      · rw [List.mem_singleton.mp new]
        simp
  refine declared.updateScope fun scope own => ⟨own.parent, own.fallback, ?_⟩
  intro named member other listed
  rcases mem_addName member listed with rfl | ⟨earlier, old, kept⟩
  · simp
  · exact own.names earlier old other kept

theorem getElem_of_scope {scope : Scope} (given : graph.scope id = .ok scope) :
    graph.scopes[id]? = some scope := by
  unfold ScopeGraph.scope at given
  split at given
  · next found same =>
    cases given
    exact same
  · cases given

theorem scope_ok (inside : id < graph.scopes.length) : ∃ scope ∈ graph.scopes,
    graph.scope id = .ok scope := by
  refine ⟨graph.scopes[id], List.getElem_mem inside, ?_⟩
  simp [scope, inside]

theorem declaration_ok {id : DeclarationId} (inside : id < graph.declarations.length) :
    ∃ declaration ∈ graph.declarations, graph.declaration id = .ok declaration := by
  refine ⟨graph.declarations[id], List.getElem_mem inside, ?_⟩
  simp [declaration, inside]

theorem InRange.latest (within : graph.InRange) (id : ScopeId) (name : String) :
    ∀ declared ∈ graph.latest? id name, declared < graph.declarations.length := by
  intro declared isLatest
  simp only [latest?, Option.mem_def, Option.bind_eq_some_iff] at isLatest
  obtain ⟨scope, found, last⟩ := isLatest
  have member := List.mem_of_getElem? found
  exact (within.scopes scope member).declared name declared
    (List.mem_of_getLast? last)

section Chains

variable (within : graph.InRange)

include within

theorem InRange.parent :
    ∀ next ∈ graph.scopes[id]?.bind (·.parent), next < graph.scopes.length := by
  intro next isNext
  simp only [Option.mem_def, Option.bind_eq_some_iff] at isNext
  obtain ⟨scope, found, isParent⟩ := isNext
  exact (within.scopes scope (List.mem_of_getElem? found)).parent next isParent

theorem InRange.fallback :
    ∀ next ∈ graph.scopes[id]?.bind (·.fallback), next < graph.scopes.length := by
  intro next isNext
  simp only [Option.mem_def, Option.bind_eq_some_iff] at isNext
  obtain ⟨scope, found, isFallback⟩ := isNext
  exact (within.scopes scope (List.mem_of_getElem? found)).fallback next isFallback

theorem InRange.parentChain (fuel : Nat) {start : Option ScopeId}
    (inside : ∀ id ∈ start, id < graph.scopes.length) :
    ∀ id ∈ graph.parentChain fuel start, id < graph.scopes.length := by
  fun_induction ScopeGraph.parentChain graph fuel start with
  | case1 => simp
  | case2 => simp
  | case3 fuel first ih =>
    rw [List.forall_mem_cons]
    exact ⟨inside first rfl, ih within.parent⟩

theorem InRange.fallbackChain (fuel : Nat) (passed : List ScopeId) {start : Option ScopeId}
    (inside : ∀ id ∈ start, id < graph.scopes.length) :
    ∀ id ∈ graph.fallbackChain fuel passed start, id < graph.scopes.length := by
  fun_induction ScopeGraph.fallbackChain graph fuel passed start with
  | case1 => simp
  | case2 => simp
  | case3 => simp
  | case4 fuel passed first _ ih =>
    rw [List.forall_mem_cons]
    exact ⟨inside first rfl, ih within.fallback⟩

theorem InRange.visits (inside : id < graph.scopes.length) :
    ∀ visit ∈ graph.visits id, visit.scope < graph.scopes.length := by
  intro visit member
  obtain ⟨around, onChain, near⟩ := List.mem_flatMap.mp member
  rcases List.mem_cons.mp near with rfl | inherited
  · exact within.parentChain graph.chainBound (by simpa using inside) around onChain
  · obtain ⟨base, onFallback, rfl⟩ := List.mem_map.mp inherited
    exact within.fallbackChain _ _ within.fallback base onFallback

end Chains

section Search

variable (name : String) (seq : Nat) (deferred : Bool)

def Resolution.Found (graph : ScopeGraph) (found : Resolution) : Prop :=
  ∀ id ∈ found.declaration?, id < graph.declarations.length

variable (within : graph.InRange)

include within

theorem InRange.declarationAt {scope : Scope} (member : scope ∈ graph.scopes) (inherited : Bool) :
    ∀ found ∈ graph.declarationAt? scope inherited name seq deferred,
      found < graph.declarations.length := by
  intro found isFound
  have declared := (within.scopes scope member).declared name
  unfold ScopeGraph.declarationAt? at isFound
  split at isFound
  · exact declared found (List.mem_of_getLast? isFound)
  · have listed := List.mem_of_find?_eq_some isFound
    exact declared found (List.mem_reverse.mp listed)

theorem InRange.search (passedOpen : Bool) {visits : List Visit}
    (inside : ∀ visit ∈ visits, visit.scope < graph.scopes.length) :
    ∃ found, graph.search name seq deferred passedOpen visits = .ok found ∧ found.Found graph := by
  induction visits generalizing passedOpen with
  | nil => exact ⟨⟨none, passedOpen⟩, rfl, by simp [Resolution.Found]⟩
  | cons visit visits ih =>
    obtain ⟨first, others⟩ := List.forall_mem_cons.mp inside
    obtain ⟨scope, member, given⟩ := scope_ok first
    have declared := within.declarationAt name seq deferred member visit.inherited
    rw [ScopeGraph.search, given]
    cases isHere : graph.declarationAt? scope visit.inherited name seq deferred with
    | some id =>
      refine ⟨⟨some id, passedOpen⟩, by simp [bind, Except.bind, isHere], ?_⟩
      simpa [Resolution.Found] using declared id isHere
    | none =>
      obtain ⟨found, isFound, inRange⟩ := ih (passedOpen || scope.isOpen) others
      exact ⟨found, by simp [bind, Except.bind, isHere, isFound], inRange⟩

theorem InRange.lookup (inside : id < graph.scopes.length) :
    ∃ found, graph.lookup id name seq deferred = .ok found ∧ found.Found graph :=
  within.search name seq deferred false (within.visits inside)

theorem InRange.findRoot :
    ∃ found, graph.findRoot name seq = .ok found ∧
      ∀ id ∈ found, id < graph.declarations.length := by
  obtain ⟨scope, member, given⟩ := scope_ok within.rooted
  have declared := (within.scopes scope member).declared name
  rw [ScopeGraph.findRoot, given]
  refine ⟨_, rfl, ?_⟩
  intro id isFound
  rcases Option.or_eq_some_iff.mp isFound with before | ⟨-, last⟩
  · exact declared id (List.mem_reverse.mp (List.mem_of_find?_eq_some before))
  · exact declared id (List.mem_of_getLast? last)

omit within in
theorem occursOn_ok (target : ScopeId) {chain : List ScopeId}
    (inside : ∀ id ∈ chain, id < graph.scopes.length) :
    ∃ answer, graph.occursOn target chain = .ok answer := by
  induction chain with
  | nil => exact ⟨false, rfl⟩
  | cons next chain ih =>
    obtain ⟨first, others⟩ := List.forall_mem_cons.mp inside
    obtain ⟨scope, -, given⟩ := scope_ok first
    rw [occursOn]
    split
    · exact ⟨true, rfl⟩
    · rw [given]
      exact ih others

theorem InRange.linkFallback (inside : id < graph.scopes.length)
    (targetInside : target < graph.scopes.length) :
    ∃ linked after, graph.linkFallback id target = .ok (linked, after) ∧ after.InRange ∧
      Grows graph after := by
  have chained : ∀ next ∈ graph.fallbackChain graph.chainBound [] (some target),
      next < graph.scopes.length :=
    within.fallbackChain graph.chainBound [] (by simpa using targetInside)
  obtain ⟨answer, answered⟩ := occursOn_ok id chained
  obtain ⟨scope, -, given⟩ := scope_ok inside
  rw [ScopeGraph.linkFallback, answered]
  cases answer with
  | true => exact ⟨false, graph, rfl, within, .refl graph⟩
  | false =>
    simp only [given]
    refine ⟨true, _, rfl, within.updateScope fun scope own => ?_, by simp, Nat.le_refl _⟩
    exact ⟨own.parent, by simpa using targetInside, own.names⟩

theorem InRange.trySetOpen (inside : id < graph.scopes.length) (isOpen : Bool) :
    ∃ after, graph.trySetOpen id isOpen = .ok after ∧ after.InRange ∧ Grows graph after := by
  obtain ⟨scope, -, given⟩ := scope_ok inside
  rw [ScopeGraph.trySetOpen, given]
  refine ⟨_, rfl, within.updateScope fun scope own => ?_, by simp, Nat.le_refl _⟩
  exact ⟨own.parent, own.fallback, own.names⟩

end Search

end ScopeGraph

end Squirrel
