import Mathlib.Logic.Relation
import Squirrel.Analysis.Basic
import Squirrel.Proofs.Scope.InRange

/-! What a walk can do to what it has collected, one step after the other. -/

namespace Squirrel

theorem map_modify {α β : Type} {values : List α} {index : Nat} {update : α → α} {view : α → β}
    (keeps : ∀ value, view (update value) = view value) :
    (values.modify index update).map view = values.map view := by
  refine List.ext_getElem? fun place => ?_
  rw [List.getElem?_map, List.getElem?_map, List.getElem?_modify]
  cases values[place]? with
  | none => rfl
  | some value =>
    by_cases here : index = place
    · simp [here, keeps]
    · simp [here]

def Declaration.stamp (declaration : Declaration) :
    String × DeclarationKind × Span × ScopeId × Nat :=
  (declaration.name, declaration.kind, declaration.span, declaration.scope, declaration.seq)

def ScopeGraph.IsTable (graph : ScopeGraph) (id : ScopeId) : Prop :=
  (graph.scopes.map (·.kind))[id]? = some .table

theorem ScopeGraph.IsTable.inside {graph : ScopeGraph} {id : ScopeId} (isTable : graph.IsTable id) :
    id < graph.scopes.length := by
  simpa using (List.getElem?_eq_some_iff.mp isTable).1

/-- A name is declared in a scope, at some time. -/
def ScopeGraph.Declares (graph : ScopeGraph) (scope : ScopeId) (name : String)
    (kind : DeclarationKind) (span : Span) : Prop :=
  ∃ seq, (name, kind, span, scope, seq) ∈ graph.declarations.map Declaration.stamp

namespace Analysis

/-- A single change. Numbers of declarations and references are counted on, a new scope stands in
the one where the walk is, no table inherits twice, and nothing is ever taken back. -/
inductive Step : State → State → Prop
  | report (state : State) (name : String) (span : Span) :
    Step state { state with
      diagnostics := state.diagnostics ++ [⟨.semantic (.duplicate name), .error, span⟩] }
  | enter (state : State) {kind : ScopeKind} (inner : kind ≠ .root)
      (inside : state.scope < state.graph.scopes.length) :
    Step state { state with
      graph := state.graph.addScope kind (some state.scope), scope := state.graph.scopes.length }
  | leave (state : State) (outer : ScopeId) (inside : outer < state.graph.scopes.length) :
    Step state { state with scope := outer }
  | defer (state : State) (depth : Nat) : Step state { state with functionDepth := depth }
  | declare (state : State) (scope : ScopeId) (name : String) (kind : DeclarationKind) (span : Span)
      (inside : scope < state.graph.scopes.length) :
    Step state { state with
      seq := state.seq + 1, graph := state.graph.declare scope name kind span (state.seq + 1) }
  | quiet (state : State) (id : DeclarationId) :
    Step state { state with graph := state.graph.updateDeclaration id ({ · with quiet := true }) }
  | tabulate (state : State) (id : DeclarationId) {table : Option ScopeId}
      (tabled : ∀ scope ∈ table, state.graph.IsTable scope) :
    Step state { state with
      graph := state.graph.updateDeclaration id ({ · with tableScope := table }) }
  | refer (state : State) (token : Token) (isCall isRead isWrite : Bool) :
    Step state { state with
      seq := state.seq + 1
      references := state.references ++ [⟨token.text, state.scope, state.seq + 1,
        0 < state.functionDepth, token.span, isCall, isRead, isWrite⟩] }
  | inherit (state : State) {table : ScopeId} (base : Tree) (tabled : state.graph.IsTable table)
      (fresh : ∀ inheritance ∈ state.inheritances, inheritance.tableScope ≠ table) :
    Step state { state with
      seq := state.seq + 1
      inheritances := state.inheritances ++
        [⟨table, base, state.scope, state.seq + 1, 0 < state.functionDepth⟩] }

abbrev Run : State → State → Prop := Relation.ReflTransGen Step

variable {state before after : State}

/-- Every number that was collected stands for something. -/
structure State.InRange (state : State) : Prop where
  graph : state.graph.InRange
  scope : state.scope < state.graph.scopes.length
  references : ∀ reference ∈ state.references, reference.scope < state.graph.scopes.length
  inheritances : ∀ inheritance ∈ state.inheritances,
    inheritance.tableScope < state.graph.scopes.length ∧
      inheritance.scope < state.graph.scopes.length

theorem inRange_initial : State.initial.InRange where
  graph := ScopeGraph.inRange_initial .root
  scope := Nat.one_pos
  references reference member := by cases member
  inheritances inheritance member := by cases member

theorem State.InRange.withGraph (within : state.InRange) {graph : ScopeGraph}
    (inRange : graph.InRange) (grows : state.graph.Grows graph) :
    State.InRange { state with graph := graph } where
  graph := inRange
  scope := Nat.lt_of_lt_of_le within.scope grows.scopes
  references reference member :=
    Nat.lt_of_lt_of_le (within.references reference member) grows.scopes
  inheritances inheritance member :=
    (within.inheritances inheritance member).imp (Nat.lt_of_lt_of_le · grows.scopes)
      (Nat.lt_of_lt_of_le · grows.scopes)

theorem Step.inRange (step : Step before after) (within : before.InRange) : after.InRange := by
  have updated {id : DeclarationId} {update : Declaration → Declaration}
      (keeps : ∀ declaration : Declaration,
        (∀ table ∈ declaration.tableScope, table < before.graph.scopes.length) →
        ∀ table ∈ (update declaration).tableScope, table < before.graph.scopes.length) :=
    within.withGraph (within.graph.updateDeclaration keeps)
      (ScopeGraph.grows_updateDeclaration before.graph id update)
  cases step with
  | report | defer => exact { within with }
  | @enter kind _ inside =>
    have kept := within.withGraph (within.graph.addScope kind inside)
      (ScopeGraph.grows_addScope _ _ _)
    exact { kept with scope := by simp }
  | leave outer inside => exact { within with scope := inside }
  | declare scope name kind span inside =>
    have kept := within.withGraph (within.graph.declare scope name kind span (before.seq + 1))
      (ScopeGraph.grows_declare _ _ _ _ _ _)
    exact { kept with }
  | quiet id => exact updated fun _ tabled => tabled
  | tabulate id tabled => exact updated fun _ _ scope isTable => (tabled scope isTable).inside
  | refer =>
    exact { within with
      references := List.forall_mem_append.mpr ⟨within.references, by simpa using within.scope⟩ }
  | inherit _ tabled _ =>
    exact { within with
      inheritances := List.forall_mem_append.mpr
        ⟨within.inheritances, by simpa using ⟨tabled.inside, within.scope⟩⟩ }

theorem Run.inRange (run : Run before after) (within : before.InRange) : after.InRange := by
  induction run with
  | refl => exact within
  | tail _ step ih => exact step.inRange ih

def outline (scope : Scope) : ScopeKind × Option ScopeId × Option ScopeId × Bool :=
  (scope.kind, scope.parent, scope.fallback, scope.isOpen)

structure State.Extends (before after : State) : Prop where
  scopes : before.graph.scopes.map outline <+: after.graph.scopes.map outline
  declarations : before.graph.declarations.map Declaration.stamp <+:
    after.graph.declarations.map Declaration.stamp
  references : before.references <+: after.references
  inheritances : before.inheritances <+: after.inheritances

theorem State.Extends.refl (state : State) : state.Extends state := by
  constructor <;> exact List.prefix_rfl

theorem Step.extends (step : Step before after) : before.Extends after := by
  have same := State.Extends.refl before
  have updated {id : DeclarationId} {update : Declaration → Declaration}
      (keeps : ∀ declaration, (update declaration).stamp = declaration.stamp) :
      before.Extends { before with graph := before.graph.updateDeclaration id update } :=
    { same with declarations := by simp [ScopeGraph.updateDeclaration, map_modify keeps] }
  cases step with
  | report | leave | defer => exact { same with }
  | enter => exact { same with scopes := by simp [ScopeGraph.addScope] }
  | declare scope name kind span inside =>
    have outlines : (before.graph.declare scope name kind span (before.seq + 1)).scopes.map outline =
        before.graph.scopes.map outline := map_modify fun _ => rfl
    exact { same with
      scopes := by simp [outlines]
      declarations := by simp [ScopeGraph.declare, ScopeGraph.updateScope] }
  | quiet | tabulate => exact updated fun _ => rfl
  | refer => exact { same with references := List.prefix_append _ _ }
  | inherit => exact { same with inheritances := List.prefix_append _ _ }

theorem Run.extends (run : Run before after) : before.Extends after := by
  induction run with
  | refl => exact .refl before
  | tail _ step ih =>
    have next := step.extends
    exact ⟨ih.scopes.trans next.scopes, ih.declarations.trans next.declarations,
      ih.references.trans next.references, ih.inheritances.trans next.inheritances⟩

theorem Run.grows (run : Run before after) : before.graph.Grows after.graph :=
  ⟨by simpa using run.extends.scopes.length_le, by simpa using run.extends.declarations.length_le⟩

theorem Run.declares (run : Run before after) {scope : ScopeId} {name : String}
    {kind : DeclarationKind} {span : Span} (declares : before.graph.Declares scope name kind span) :
    after.graph.Declares scope name kind span :=
  declares.imp fun _ member => run.extends.declarations.subset member

theorem Run.isTable (run : Run before after) {id : ScopeId} (isTable : before.graph.IsTable id) :
    after.graph.IsTable id := by
  have kinds : before.graph.scopes.map (·.kind) <+: after.graph.scopes.map (·.kind) := by
    simpa [Function.comp_def, outline] using run.extends.scopes.map Prod.fst
  obtain ⟨inside, found⟩ := List.getElem?_eq_some_iff.mp isTable
  exact (List.prefix_iff_getElem?.mp kinds id inside).trans (congrArg some found)

end Analysis

end Squirrel
