import Squirrel.Proofs.Scope.Paths

/-! The names that a scope lists are those of its declarations. -/

namespace Squirrel

theorem lookup_addName (name other : String) (id : DeclarationId)
    (names : List (String × List DeclarationId)) :
    ((addName name id names).lookup other).getD [] =
      (names.lookup other).getD [] ++ if other = name then [id] else [] := by
  have apart {key : String} (different : other ≠ key) : (other == key) = false := by
    simpa using different
  induction names with
  | nil =>
    by_cases same : other = name
    · simp [addName, same]
    · simp [addName, List.lookup_cons, apart same, same]
  | cons first names ih =>
    obtain ⟨key, ids⟩ := first
    rw [addName]
    split
    · next isKey =>
      subst isKey
      by_cases same : other = key
      · simp [same]
      · simp [List.lookup_cons, apart same, same]
    · next different =>
      by_cases same : other = key
      · subst same
        simp [different]
      · rw [List.lookup_cons, apart same, ih, List.lookup_cons, apart same]

def Declaration.place (declaration : Declaration) : ScopeId × String :=
  (declaration.scope, declaration.name)

namespace ScopeGraph

variable {graph : ScopeGraph} {id : ScopeId}

def declarationsOf (graph : ScopeGraph) (id : ScopeId) (name : String) : List DeclarationId :=
  (List.range graph.declarations.length).filter fun number =>
    graph.declarations[number]?.any fun declaration =>
      declaration.scope = id ∧ declaration.name = name

/-- Every declaration stands in a scope, and every scope lists those that stand in it. -/
structure Filed (graph : ScopeGraph) : Prop where
  homes : ∀ declaration ∈ graph.declarations, declaration.scope < graph.scopes.length
  listed : ∀ id scope, graph.scopes[id]? = some scope →
    ∀ name, scope.declared name = graph.declarationsOf id name

theorem declarationsOf_eq_nil {name : String}
    (none : ∀ declaration ∈ graph.declarations, declaration.scope ≠ id) :
    graph.declarationsOf id name = [] := by
  unfold declarationsOf
  refine List.filter_eq_nil_iff.mpr fun number _ => ?_
  cases found : graph.declarations[number]? with
  | none => simp
  | some declaration => simp [none declaration (List.mem_of_getElem? found)]

theorem declarationsOf_congr {other : ScopeGraph} {name : String}
    (same : other.declarations.map (·.place) = graph.declarations.map (·.place)) :
    other.declarationsOf id name = graph.declarationsOf id name := by
  have places : other.declarations.length = graph.declarations.length := by
    simpa using congrArg List.length same
  unfold declarationsOf
  rw [places]
  refine List.filter_congr fun number _ => ?_
  have here := congrArg (fun listed => listed[number]?) same
  simp only [List.getElem?_map] at here
  cases one : other.declarations[number]? <;> cases two : graph.declarations[number]? <;>
    simp_all [Declaration.place]

theorem declarationsOf_declare (home : ScopeId) (name other : String) (kind : DeclarationKind)
    (span : Span) (seq : Nat) :
    (graph.declare home name kind span seq).declarationsOf id other =
      graph.declarationsOf id other ++
        if id = home ∧ other = name then [graph.declarations.length] else [] := by
  have length : (graph.declare home name kind span seq).declarations.length =
      graph.declarations.length + 1 := by simp
  have old : ∀ number ∈ List.range graph.declarations.length,
      (graph.declare home name kind span seq).declarations[number]? =
        graph.declarations[number]? := by
    intro number member
    exact List.getElem?_append_left (List.mem_range.mp member)
  have new : (graph.declare home name kind span seq).declarations[graph.declarations.length]? =
      some ⟨name, kind, span, home, seq, 0, 0, none, false⟩ := List.getElem?_concat_length
  unfold declarationsOf
  rw [length, List.range_succ, List.filter_append]
  congr 1
  · exact List.filter_congr fun number member => by rw [old number member]
  · rw [List.filter_singleton, new]
    by_cases here : id = home ∧ other = name
    · simp [here.1, here.2]
    · have apart : decide (home = id ∧ name = other) = false :=
        decide_eq_false fun same => here ⟨same.1.symm, same.2.symm⟩
      rw [Option.any_some, apart, if_neg here]
      rfl

section Changing

variable {update : Scope → Scope} {target : ScopeId}

theorem of_getElem_updateScope {scope : Scope}
    (found : (graph.updateScope target update).scopes[id]? = some scope) :
    ∃ earlier, graph.scopes[id]? = some earlier ∧
      scope = if target = id then update earlier else earlier := by
  rw [updateScope, List.getElem?_modify] at found
  obtain ⟨earlier, isEarlier, same⟩ := Option.map_eq_some_iff.mp found
  exact ⟨earlier, isEarlier, same.symm⟩

theorem Filed.addScope (filed : graph.Filed) (kind : ScopeKind) (parent : Option ScopeId) :
    (graph.addScope kind parent).Filed where
  homes declaration member := by
    rw [length_addScope]
    exact Nat.lt_succ_of_lt (filed.homes declaration member)
  listed id scope found name := by
    rcases Nat.lt_or_ge id graph.scopes.length with old | new
    · rw [ScopeGraph.addScope, List.getElem?_append_left old] at found
      exact filed.listed id scope found name
    · obtain ⟨inside, -⟩ := List.getElem?_eq_some_iff.mp found
      rw [length_addScope] at inside
      obtain rfl : id = graph.scopes.length := Nat.le_antisymm (Nat.le_of_lt_succ inside) new
      cases List.getElem?_concat_length.symm.trans found
      exact (declarationsOf_eq_nil fun declaration member =>
        Nat.ne_of_lt (filed.homes declaration member)).symm

theorem Filed.updateScope (filed : graph.Filed) {target : ScopeId} {update : Scope → Scope}
    (keeps : ∀ scope : Scope, (update scope).names = scope.names) :
    (graph.updateScope target update).Filed where
  homes declaration member := by
    rw [length_updateScope]
    exact filed.homes declaration member
  listed id scope found name := by
    obtain ⟨earlier, isEarlier, rfl⟩ := of_getElem_updateScope found
    have same : (if target = id then update earlier else earlier).names = earlier.names := by
      split
      · exact keeps earlier
      · rfl
    rw [Scope.declared, same]
    exact filed.listed id earlier isEarlier name

theorem Filed.declare (filed : graph.Filed) {home : ScopeId} (inside : home < graph.scopes.length)
    (name : String) (kind : DeclarationKind) (span : Span) (seq : Nat) :
    (graph.declare home name kind span seq).Filed where
  homes declaration member := by
    rw [scopes_declare]
    rcases List.mem_append.mp member with old | new
    · exact filed.homes declaration old
    · rw [List.mem_singleton.mp new]
      exact inside
  listed id scope found other := by
    obtain ⟨earlier, isEarlier, rfl⟩ := of_getElem_updateScope found
    rw [declarationsOf_declare, ← filed.listed id earlier isEarlier]
    by_cases here : home = id
    · subst here
      simp only [if_true, true_and]
      exact lookup_addName name other _ earlier.names
    · have apart : ¬ (id = home ∧ other = name) := fun same => here same.1.symm
      simp [here, apart]

theorem Filed.redeclare (filed : graph.Filed) {declarations : List Declaration}
    (same : declarations.map (·.place) = graph.declarations.map (·.place)) :
    Filed { graph with declarations := declarations } where
  homes declaration member := by
    have placed : declaration.place ∈ graph.declarations.map (·.place) :=
      same ▸ List.mem_map_of_mem member
    obtain ⟨earlier, old, place⟩ := List.mem_map.mp placed
    have home : earlier.scope = declaration.scope := congrArg Prod.fst place
    exact home ▸ filed.homes earlier old
  listed id scope found name := by
    rw [filed.listed id scope found name]
    exact (declarationsOf_congr same).symm

theorem Nested.addScope (nested : graph.Nested) (kind : ScopeKind) {around : ScopeId}
    (inside : around < graph.scopes.length) : (graph.addScope kind (some around)).Nested := by
  intro id scope found
  rcases Nat.lt_or_ge id graph.scopes.length with old | new
  · rw [ScopeGraph.addScope, List.getElem?_append_left old] at found
    exact nested id scope found
  · rw [ScopeGraph.addScope, List.getElem?_append_right new] at found
    rw [List.mem_singleton.mp (List.mem_of_getElem? found)]
    exact .inr ⟨around, Nat.lt_of_lt_of_le inside new, rfl⟩

theorem Nested.updateScope (nested : graph.Nested)
    (keeps : ∀ scope : Scope, (update scope).parent = scope.parent) :
    (graph.updateScope target update).Nested := by
  intro id scope found
  obtain ⟨earlier, isEarlier, rfl⟩ := of_getElem_updateScope found
  have same : (if target = id then update earlier else earlier).parent = earlier.parent := by
    split
    · exact keeps earlier
    · rfl
  rw [same]
  exact nested id earlier isEarlier

theorem Nested.declare (nested : graph.Nested) (home : ScopeId) (name : String)
    (kind : DeclarationKind) (span : Span) (seq : Nat) :
    (graph.declare home name kind span seq).Nested := by
  have declared : Nested { graph with
      declarations := graph.declarations ++ [⟨name, kind, span, home, seq, 0, 0, none, false⟩] } :=
    nested
  exact declared.updateScope fun _ => rfl

theorem Acyclic.updateScope (acyclic : graph.Acyclic)
    (keeps : ∀ scope : Scope, (update scope).fallback = scope.fallback) :
    (graph.updateScope target update).Acyclic := by
  have kept {id : ScopeId} {scope : Scope} (found : graph.scopes[id]? = some scope) :
      ∃ later, (graph.updateScope target update).scopes[id]? = some later ∧
        later.fallback = scope.fallback := by
    rw [ScopeGraph.updateScope, List.getElem?_modify, found]
    refine ⟨_, rfl, ?_⟩
    split
    · exact keeps scope
    · rfl
  intro id inside
  rw [length_updateScope] at inside
  obtain ⟨bases, inherits⟩ := acyclic id inside
  refine ⟨bases, ?_⟩
  induction inherits with
  | nothing found ends =>
    obtain ⟨later, isLater, same⟩ := kept found
    exact .nothing isLater (same.trans ends)
  | base found linked rest ih =>
    obtain ⟨later, isLater, same⟩ := kept found
    exact .base isLater (same.trans linked) (ih (rest.inside _ List.mem_cons_self))

end Changing

end ScopeGraph

end Squirrel
