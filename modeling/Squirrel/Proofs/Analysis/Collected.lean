import Squirrel.Proofs.Analysis.Safe
import Squirrel.Proofs.Scope.Filing

/-! What holds of all that a walk collects. -/

namespace Squirrel.Analysis

variable {state before after : State}

/-- The numbers that declarations, references and inheritances were given in turn. -/
def State.numbers (state : State) : List Nat :=
  state.graph.declarations.map (·.seq) ++
    (state.references.map (·.seq) ++ state.inheritances.map (·.seq))

/-- Nothing is linked or counted yet, and the only faults are names that were declared again. -/
structure Collected (state : State) : Prop where
  nested : state.graph.Nested
  rooted : ∃ inner, state.graph.scopes.map (·.kind) = .root :: inner ∧ .root ∉ inner
  filed : state.graph.Filed
  unlinked : ∀ scope ∈ state.graph.scopes, scope.fallback = none ∧ scope.isOpen = false
  uncounted : ∀ declaration ∈ state.graph.declarations,
    declaration.reads = 0 ∧ declaration.writes = 0
  tables : ∀ declaration ∈ state.graph.declarations, ∀ id ∈ declaration.tableScope,
    state.graph.IsTable id
  heirs : ∀ inheritance ∈ state.inheritances, state.graph.IsTable inheritance.tableScope
  apart : (state.inheritances.map (·.tableScope)).Nodup
  numbered : ∀ number ∈ state.numbers, number ≤ state.seq
  distinct : state.numbers.Nodup
  ordered : (state.graph.declarations.map (·.seq)).Pairwise (· < ·)
  duplicates : ∀ diagnostic ∈ state.diagnostics, ∃ name,
    diagnostic.fault = .semantic (.duplicate name)

theorem collected_initial : Collected .initial where
  nested id scope found := by
    cases id with
    | zero =>
      cases found
      exact .inl ⟨rfl, rfl⟩
    | succ id => cases found
  rooted := ⟨[], rfl, List.not_mem_nil⟩
  filed := by
    have nothing : ScopeGraph.empty.Filed := by
      constructor
      · intro declaration member
        cases member
      · intro id scope found
        cases found
    exact nothing.addScope .root none
  unlinked scope member := by
    rw [List.mem_singleton.mp member]
    exact ⟨rfl, rfl⟩
  uncounted declaration member := by cases member
  tables declaration member := by cases member
  heirs inheritance member := by cases member
  apart := .nil
  numbered number member := by cases member
  distinct := .nil
  ordered := .nil
  duplicates diagnostic member := by cases member

theorem Step.numbers (step : Step before after) :
    (after.seq = before.seq ∧ after.numbers = before.numbers) ∨
      (after.seq = before.seq + 1 ∧ after.numbers.Perm ((before.seq + 1) :: before.numbers)) := by
  have updated {id : DeclarationId} {update : Declaration → Declaration}
      (keeps : ∀ declaration, (update declaration).seq = declaration.seq) :
      (before.graph.updateDeclaration id update).declarations.map (·.seq) =
        before.graph.declarations.map (·.seq) := map_modify keeps
  cases step with
  | declare | refer | inherit =>
    refine .inr ⟨rfl, List.perm_iff_count.mpr fun number => ?_⟩
    simp only [State.numbers, ScopeGraph.declare, ScopeGraph.updateScope, List.map_append,
      List.map_cons, List.map_nil, List.count_append, List.count_cons, List.count_nil]
    omega
  | quiet | tabulate => exact .inl ⟨rfl, congrArg (· ++ _) (updated fun _ => rfl)⟩
  | _ => exact .inl ⟨rfl, rfl⟩

theorem Collected.count (collected : Collected before) (step : Step before after) :
    (∀ number ∈ after.numbers, number ≤ after.seq) ∧ after.numbers.Nodup := by
  rcases step.numbers with ⟨same, unchanged⟩ | ⟨next, taken⟩
  · rw [same, unchanged]
    exact ⟨collected.numbered, collected.distinct⟩
  · have earlier (number : Nat) (member : number ∈ before.numbers) : number < before.seq + 1 :=
      Nat.lt_succ_of_le (collected.numbered number member)
    rw [next]
    refine ⟨fun number member => ?_, taken.nodup_iff.mpr ?_⟩
    · rcases List.mem_cons.mp (taken.mem_iff.mp member) with rfl | old
      · exact Nat.le_refl _
      · exact Nat.le_of_lt (earlier number old)
    · exact List.nodup_cons.mpr ⟨fun old => Nat.lt_irrefl _ (earlier _ old), collected.distinct⟩

theorem Collected.updateDeclaration (collected : Collected state) {id : DeclarationId}
    {update : Declaration → Declaration}
    (step : Step state { state with graph := state.graph.updateDeclaration id update })
    (keeps : ∀ declaration : Declaration, (update declaration).stamp = declaration.stamp ∧
      (update declaration).reads = declaration.reads ∧
      (update declaration).writes = declaration.writes)
    (tabled : ∀ declaration : Declaration,
      (∀ id ∈ declaration.tableScope, state.graph.IsTable id) →
      ∀ id ∈ (update declaration).tableScope, state.graph.IsTable id) :
    Collected { state with graph := state.graph.updateDeclaration id update } where
  nested := collected.nested
  rooted := collected.rooted
  filed := collected.filed.redeclare (map_modify fun declaration =>
    congrArg (fun stamp => (stamp.2.2.2.1, stamp.1)) (keeps declaration).1)
  unlinked := collected.unlinked
  uncounted declaration member := by
    rcases ScopeGraph.mem_modify member with same | ⟨earlier, old, rfl⟩
    · exact collected.uncounted declaration same
    · obtain ⟨-, reads, writes⟩ := keeps earlier
      rw [reads, writes]
      exact collected.uncounted earlier old
  tables declaration member := by
    rcases ScopeGraph.mem_modify member with same | ⟨earlier, old, rfl⟩
    · exact collected.tables declaration same
    · exact tabled earlier (collected.tables earlier old)
  heirs := collected.heirs
  apart := collected.apart
  numbered := (collected.count step).1
  distinct := (collected.count step).2
  ordered := by
    have same : (state.graph.declarations.modify id update).map (·.seq) =
        state.graph.declarations.map (·.seq) :=
      map_modify fun declaration => congrArg (·.2.2.2.2) (keeps declaration).1
    rw [ScopeGraph.updateDeclaration, same]
    exact collected.ordered
  duplicates := collected.duplicates

theorem Step.collected (step : Step before after) (collected : Collected before) :
    Collected after := by
  obtain ⟨numbered, distinct⟩ := collected.count step
  have tables : ∀ declaration ∈ before.graph.declarations, ∀ id ∈ declaration.tableScope,
      after.graph.IsTable id := fun declaration member id isTable =>
    Run.isTable (.single step) (collected.tables declaration member id isTable)
  have heirs : ∀ inheritance ∈ before.inheritances, after.graph.IsTable inheritance.tableScope :=
    fun inheritance member => Run.isTable (.single step) (collected.heirs inheritance member)
  have again := step
  cases step with
  | report name span =>
    exact { collected with
      duplicates := List.forall_mem_append.mpr
        ⟨collected.duplicates, List.forall_mem_singleton.mpr ⟨name, rfl⟩⟩ }
  | @enter kind inner inside =>
    obtain ⟨others, kinds, noRoot⟩ := collected.rooted
    exact { collected with
      nested := collected.nested.addScope kind inside
      rooted := ⟨others ++ [kind], by simp [ScopeGraph.addScope, kinds], by simp [noRoot, inner.symm]⟩
      filed := collected.filed.addScope kind _
      unlinked := List.forall_mem_append.mpr
        ⟨collected.unlinked, List.forall_mem_singleton.mpr ⟨rfl, rfl⟩⟩
      tables, heirs }
  | leave | defer => exact { collected with }
  | declare scope name kind span inside =>
    have kinds : (before.graph.declare scope name kind span (before.seq + 1)).scopes.map (·.kind) =
        before.graph.scopes.map (·.kind) := map_modify fun _ => rfl
    exact { collected with
      nested := collected.nested.declare scope name kind span (before.seq + 1)
      rooted := kinds ▸ collected.rooted
      filed := collected.filed.declare inside name kind span (before.seq + 1)
      unlinked := fun own member => by
        rcases ScopeGraph.mem_modify member with same | ⟨earlier, old, rfl⟩
        · exact collected.unlinked own same
        · exact collected.unlinked earlier old
      uncounted := List.forall_mem_append.mpr
        ⟨collected.uncounted, List.forall_mem_singleton.mpr ⟨rfl, rfl⟩⟩
      tables := List.forall_mem_append.mpr ⟨tables, List.forall_mem_singleton.mpr fun _ inside => by cases inside⟩
      heirs, numbered, distinct
      ordered := by
        have numbers : (before.graph.declare scope name kind span (before.seq + 1)).declarations.map
            (·.seq) = before.graph.declarations.map (·.seq) ++ [before.seq + 1] := List.map_append
        rw [numbers, List.pairwise_append]
        refine ⟨collected.ordered, List.pairwise_singleton _ _, fun earlier old later new => ?_⟩
        rw [List.mem_singleton.mp new]
        exact Nat.lt_succ_of_le (collected.numbered earlier (List.mem_append_left _ old)) }
  | quiet =>
    exact collected.updateDeclaration again (fun _ => ⟨rfl, rfl, rfl⟩) fun _ tabled => tabled
  | tabulate id tabled =>
    exact collected.updateDeclaration again (fun _ => ⟨rfl, rfl, rfl⟩) fun _ _ => tabled
  | refer => exact { collected with numbered, distinct }
  | @inherit table base tabled fresh =>
    refine { collected with
      heirs := List.forall_mem_append.mpr ⟨heirs, List.forall_mem_singleton.mpr tabled⟩
      apart := ?_, numbered, distinct }
    rw [List.map_append, List.nodup_append]
    refine ⟨collected.apart, List.pairwise_singleton _ _, fun one old other new => ?_⟩
    obtain ⟨inheritance, member, rfl⟩ := List.mem_map.mp old
    rw [List.mem_singleton.mp new]
    exact fresh inheritance member

theorem Run.collected (run : Run before after) (collected : Collected before) :
    Collected after := by
  induction run with
  | refl => exact collected
  | tail _ step ih => exact step.collected ih

end Squirrel.Analysis
