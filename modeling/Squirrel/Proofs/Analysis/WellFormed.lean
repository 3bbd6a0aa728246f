import Mathlib.Data.List.Nodup
import Squirrel.Proofs.Analysis.Collected
import Squirrel.Proofs.Grammar.Extraction
import Squirrel.Proofs.Safety

/-! A walk keeps the scope graph well formed. -/

namespace Squirrel

mutual

theorem Tree.tokens_timed (late : Bool) : (tree : Tree) → (tree.timed late).map (·.1) = tree.tokens
  | .leaf _ => rfl
  | .node label children => tokens_timedOf label late children

theorem tokens_timedOf (label : Label) (late : Bool) :
    (children : List Tree) → (timedOf label late children).map (·.1) = Tree.tokensOf children
  | [] => rfl
  | child :: children => by
    rw [timedOf, List.map_append, child.tokens_timed, tokens_timedOf label late children]
    rfl

end

theorem timed_unique [NestingLimit] (source : String) {one other : Token × Bool}
    (first : one ∈ (parse source).tree.timed false) (second : other ∈ (parse source).tree.timed false)
    (same : one.1.span = other.1.span) : one = other := by
  have distinct := distinct_spans source
  rw [← tokens_parse, ← Tree.tokens_timed false, List.map_map] at distinct
  exact List.inj_on_of_nodup_map distinct first second same

namespace Analysis

variable {state : State}

/-- The names of a scope in which every declaration is listed, the latest one last. -/
structure Buckets (graph : ScopeGraph) (id : ScopeId) (scope : Scope) (name : String) : Prop where
  mem_iff : ∀ number, number ∈ scope.declared name ↔ ∃ declaration,
    graph.declarations[number]? = some declaration ∧ declaration.scope = id ∧ declaration.name = name
  increasing : (scope.declared name).Pairwise (· < ·)
  later : ((scope.declared name).filterMap (graph.declarations[·]?)).Pairwise (·.seq < ·.seq)

/-- The root is the only scope that stands in no other one, every scope lists its declarations, no
number is given twice, and every number that is kept stands for something. -/
structure State.IsWellFormed (state : State) : Prop where
  rooted : 0 < state.graph.scopes.length
  root_iff : ∀ id scope, state.graph.scopes[id]? = some scope →
    (scope.kind = .root ↔ id = 0) ∧ (scope.parent = none ↔ id = 0) ∧
      ∀ around ∈ scope.parent, around < id
  buckets : ∀ id scope, state.graph.scopes[id]? = some scope →
    ∀ name, Buckets state.graph id scope name
  distinct : state.numbers.Nodup
  homes : ∀ declaration ∈ state.graph.declarations, declaration.scope < state.graph.scopes.length
  tables : ∀ declaration ∈ state.graph.declarations, ∀ id ∈ declaration.tableScope,
    state.graph.IsTable id
  heirs : ∀ inheritance ∈ state.inheritances, state.graph.IsTable inheritance.tableScope ∧
    inheritance.scope < state.graph.scopes.length
  references : ∀ reference ∈ state.references, reference.scope < state.graph.scopes.length

theorem Collected.buckets (collected : Collected state) {id : ScopeId} {scope : Scope}
    (found : state.graph.scopes[id]? = some scope) (name : String) :
    Buckets state.graph id scope name := by
  have listed : scope.declared name = state.graph.declarationsOf id name :=
    collected.filed.listed id scope found name
  have increasing : (scope.declared name).Pairwise (· < ·) := by
    rw [listed]
    exact List.pairwise_lt_range.filter _
  refine ⟨fun number => ?_, increasing, List.pairwise_filterMap.mpr (increasing.imp ?_)⟩
  · rw [listed, ScopeGraph.declarationsOf, List.mem_filter, List.mem_range]
    constructor
    · rintro ⟨inside, own⟩
      rw [List.getElem?_eq_getElem inside, Option.any_some, decide_eq_true_eq] at own
      exact ⟨_, List.getElem?_eq_getElem inside, own⟩
    · rintro ⟨declaration, isDeclaration, own⟩
      rw [isDeclaration, Option.any_some, decide_eq_true_eq]
      exact ⟨(List.getElem?_eq_some_iff.mp isDeclaration).1, own⟩
  · intro one other less first isFirst second isSecond
    obtain ⟨inside, rfl⟩ := List.getElem?_eq_some_iff.mp isFirst
    obtain ⟨within, rfl⟩ := List.getElem?_eq_some_iff.mp isSecond
    exact List.pairwise_iff_getElem.mp (List.pairwise_map.mp collected.ordered) _ _ _ _ less

theorem Collected.isWellFormed (collected : Collected state) (within : state.InRange) :
    state.IsWellFormed where
  rooted := within.graph.rooted
  root_iff id scope found := by
    obtain ⟨inner, kinds, noRoot⟩ := collected.rooted
    have kind : (ScopeKind.root :: inner)[id]? = some scope.kind := by
      rw [← kinds, List.getElem?_map, found]
      rfl
    refine ⟨⟨fun isRoot => ?_, fun isRoot => ?_⟩, ?_⟩
    · cases id with
      | zero => rfl
      | succ id => exact absurd (List.mem_of_getElem? (isRoot ▸ kind)) noRoot
    · rw [isRoot] at kind
      exact (Option.some.inj kind).symm
    · rcases collected.nested id scope found with ⟨outermost, isRoot⟩ | ⟨around, less, isAround⟩
      · exact ⟨⟨fun _ => isRoot, fun _ => outermost⟩, by simp [outermost]⟩
      · simpa [isAround, less] using Nat.ne_of_gt (Nat.zero_lt_of_lt less)
  buckets id scope found name := collected.buckets found name
  distinct := collected.distinct
  homes := collected.filed.homes
  tables := collected.tables
  heirs inheritance member :=
    ⟨collected.heirs inheritance member, (within.inheritances inheritance member).2⟩
  references := within.references

/-- A visit, unless it is cut, ends in the scope and at the depth where it started, it only adds to
what was collected, and every number still stands for something. What a walk over the tree of a text
has collected in the end is well formed, and a reference is deferred exactly if it stands in the
parameters or the body of a function. -/
theorem walk_keeps_wellFormed [NestingLimit] (source : String) :
    (∀ levels tree value (before after : State), before.InRange →
      walk levels tree before = .ok value after → after.scope = before.scope ∧
        after.functionDepth = before.functionDepth ∧ before.Extends after ∧ after.InRange) ∧
    ∃ state complete, walkTree? (parse source).tree = .ok (state, complete) ∧
      (complete = true → state.IsWellFormed ∧ ∀ reference ∈ state.references,
        (reference.deferred = true ↔ ∃ token, (token, true) ∈ (parse source).tree.timed false ∧
          token.span = reference.span)) := by
  constructor
  · intro levels tree value before after within ran
    have safe := @safeVisitor_walk none levels _ tree before (fun _ isOwn => by cases isOwn) rfl
      within
    rw [ran] at safe
    exact ⟨safe.1.scope, safe.1.depth, safe.1.run.extends, safe.1.run.inRange within⟩
  · obtain ⟨state, complete, walked, within, cites⟩ := walkTree_ok (shaped_parse source)
    refine ⟨state, complete, walked, fun isComplete => ?_⟩
    have collected := (walkTree_run walked).collected collected_initial
    refine ⟨collected.isWellFormed within, fun reference member => ?_⟩
    obtain ⟨token, marked, -, same⟩ := cites isComplete reference member
    constructor
    · intro deferred
      exact ⟨token, deferred ▸ marked, same.symm⟩
    · rintro ⟨other, later, isOther⟩
      exact congrArg Prod.snd (timed_unique source marked later (same.symm.trans isOther.symm))

theorem walk_keeps_wellFormed_method :
    (∃ value after, walk 9 ((parse "t <- {f = g, function h(p = q) { r(p) }}").tree.subtrees.headD
        (.leaf Grammar.noToken)) .initial = .ok value after ∧
      after.graph.declarations.map (·.name) = ["f", "h", "p", "t"] ∧
      after.scope = State.initial.scope ∧ State.initial.Extends after ∧ after.InRange) ∧
    ∃ state, walkTree? (parse "t <- {f = g, function h(p = q) { r(p) }}").tree = .ok (state, true) ∧
      state.references.map (fun reference => (reference.name, reference.deferred)) =
        [("g", false), ("q", true), ("r", true), ("p", true)] ∧ state.IsWellFormed := by
  have declared : EStateM.run' (do
      let _ ← walk 9 ((parse "t <- {f = g, function h(p = q) { r(p) }}").tree.subtrees.headD
        (.leaf Grammar.noToken))
      return (← get).graph.declarations.map (·.name)) .initial = some ["f", "h", "p", "t"] := by
    decide +kernel
  have keeps := walk_keeps_wellFormed "t <- {f = g, function h(p = q) { r(p) }}"
  constructor
  · generalize (parse "t <- {f = g, function h(p = q) { r(p) }}").tree.subtrees.headD
      (.leaf Grammar.noToken) = statement at declared ⊢
    delta EStateM.run' EStateM.run at declared
    cases ran : walk 9 statement .initial with
    | ok value after =>
      rw [bind_run ran] at declared
      obtain ⟨scope, -, kept, within⟩ := keeps.1 9 statement value _ after inRange_initial ran
      exact ⟨value, after, rfl, Option.some.inj declared, scope, kept, within⟩
    | error cut after =>
      rw [bind_error ran] at declared
      cases declared
  · obtain ⟨state, complete, walked, sound⟩ := keeps.2
    have outcome : (walkTree? (parse "t <- {f = g, function h(p = q) { r(p) }}").tree).toOption.map
        (fun result => (result.2, result.1.references.map fun reference =>
          (reference.name, reference.deferred))) =
        some (true, [("g", false), ("q", true), ("r", true), ("p", true)]) := by decide +kernel
    rw [walked] at outcome
    obtain ⟨rfl, names⟩ := Prod.mk.inj (Option.some.inj outcome)
    exact ⟨state, walked, names, (sound rfl).1⟩

end Analysis

end Squirrel
