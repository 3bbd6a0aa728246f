import Squirrel.Proofs.Analysis.Safe

/-! Names are resolved without a number that stands for nothing. -/

namespace Squirrel.Analysis

variable {graph : ScopeGraph} {inheritance : Inheritance}

theorem ok_bind {ε α β : Type} {answer : Except ε α} {value : α} (next : α → Except ε β)
    (given : answer = .ok value) : (answer >>= next) = next value := by
  rw [given]
  rfl

theorem of_bind_ok {ε α β : Type} {answer : Except ε α} {next : α → Except ε β} {value : β}
    (given : (answer >>= next) = .ok value) :
    ∃ middle, answer = .ok middle ∧ next middle = .ok value := by
  cases answer with
  | ok middle => exact ⟨middle, rfl, given⟩
  | error error => cases given

theorem resolveBase_ok (within : graph.InRange) (inside : inheritance.scope < graph.scopes.length) :
    ∃ name declared, resolveBase graph inheritance = .ok (name, declared) ∧
      ∀ id ∈ declared, id < graph.declarations.length := by
  have rooted (name : String) := within.findRoot name inheritance.seq
  unfold resolveBase
  split
  · next token _ _ =>
    obtain ⟨found, isFound, inRange⟩ :=
      within.lookup token.text inheritance.seq inheritance.deferred inside
    obtain ⟨declared, isDeclared, declaredInside⟩ := rooted token.text
    rw [ok_bind _ isFound]
    cases here : found.declaration? with
    | some id => exact ⟨_, _, rfl, by simpa [here, ScopeGraph.Resolution.Found] using inRange⟩
    | none =>
      dsimp only
      rw [isDeclared]
      exact ⟨_, _, rfl, declaredInside⟩
  · next token _ =>
    obtain ⟨declared, isDeclared, declaredInside⟩ := rooted token.text
    rw [isDeclared]
    exact ⟨_, _, rfl, declaredInside⟩
  · next token _ =>
    obtain ⟨declared, isDeclared, declaredInside⟩ := rooted token.text
    rw [isDeclared]
    exact ⟨_, _, rfl, declaredInside⟩
  · next token _ _ =>
    split
    · obtain ⟨declared, isDeclared, declaredInside⟩ :=
        rooted (String.ofList (pathName token.text.toList))
      dsimp only
      rw [isDeclared]
      exact ⟨_, _, rfl, declaredInside⟩
    · exact ⟨_, _, rfl, by simp⟩
  · exact ⟨_, _, rfl, by simp⟩

theorem tableScope_ok (within : graph.InRange) {declared : Option DeclarationId}
    (inside : ∀ id ∈ declared, id < graph.declarations.length) :
    ∃ table, tableScope? graph declared = .ok table ∧ ∀ id ∈ table, id < graph.scopes.length := by
  cases declared with
  | none => exact ⟨none, rfl, by simp⟩
  | some id =>
    obtain ⟨declaration, member, found⟩ := ScopeGraph.declaration_ok (inside id rfl)
    rw [tableScope?, found]
    exact ⟨_, rfl, within.declarations declaration member⟩

/-- Resolving goes on with a graph in which all numbers still stand for something. -/
def Resolves (graph : ScopeGraph) (answer : Except GraphError Resolved) : Prop :=
  ∃ resolved, answer = .ok resolved ∧ resolved.graph.InRange ∧ graph.Grows resolved.graph

theorem resolves_inheritance {resolved : Resolved} (within : resolved.graph.InRange)
    (table : inheritance.tableScope < resolved.graph.scopes.length)
    (inside : inheritance.scope < resolved.graph.scopes.length) :
    Resolves resolved.graph (resolveInheritance resolved inheritance) := by
  obtain ⟨name, declared, based, declaredInside⟩ := resolveBase_ok within inside
  obtain ⟨target, isTarget, targetInside⟩ := tableScope_ok within declaredInside
  unfold resolveInheritance
  rw [ok_bind _ based]
  dsimp only
  rw [ok_bind _ isTarget]
  cases target with
  | none =>
    obtain ⟨opened, isOpened, inRange, grows⟩ := within.trySetOpen table true
    dsimp only
    rw [ok_bind _ isOpened]
    exact ⟨_, rfl, inRange, grows⟩
  | some target =>
    obtain ⟨linked, after, isLinked, inRange, grows⟩ :=
      within.linkFallback table (targetInside target rfl)
    dsimp only
    rw [ok_bind _ isLinked]
    cases linked with
    | true => exact ⟨_, rfl, inRange, grows⟩
    | false => exact ⟨_, rfl, within, .refl _⟩

theorem resolves_reference (known : List String) {resolved : Resolved} {reference : Reference}
    (within : resolved.graph.InRange) (inside : reference.scope < resolved.graph.scopes.length) :
    Resolves resolved.graph (resolveReference known resolved reference) := by
  obtain ⟨found, isFound, inRange⟩ :=
    within.lookup reference.name reference.seq reference.deferred inside
  unfold resolveReference
  rw [ok_bind _ isFound]
  cases here : found.declaration? with
  | some id =>
    obtain ⟨declaration, -, given⟩ := ScopeGraph.declaration_ok (inRange id here)
    dsimp only
    rw [ok_bind _ given]
    exact ⟨_, rfl, within.updateDeclaration fun _ tabled => tabled,
      ScopeGraph.grows_updateDeclaration _ _ _⟩
  | none =>
    dsimp only
    split
    · exact ⟨_, rfl, within, .refl _⟩
    · split
      · exact ⟨_, rfl, within, .refl _⟩
      · exact ⟨_, rfl, within, .refl _⟩

theorem resolves_foldlM {α : Type} {step : Resolved → α → Except GraphError Resolved}
    (fits : ScopeGraph → α → Prop)
    (one : ∀ (resolved : Resolved) value, resolved.graph.InRange → fits resolved.graph value →
      Resolves resolved.graph (step resolved value))
    (mono : ∀ before after value, before.Grows after → fits before value → fits after value)
    {values : List α} (resolved : Resolved) (within : resolved.graph.InRange)
    (all : ∀ value ∈ values, fits resolved.graph value) :
    Resolves resolved.graph (values.foldlM step resolved) := by
  induction values generalizing resolved with
  | nil => exact ⟨resolved, rfl, within, .refl _⟩
  | cons value values ih =>
    obtain ⟨first, others⟩ := List.forall_mem_cons.mp all
    obtain ⟨next, stepped, inRange, grows⟩ := one resolved value within first
    obtain ⟨last, folded, lastInRange, later⟩ := ih next inRange
      fun value member => mono _ _ _ grows (others value member)
    rw [List.foldlM_cons, stepped]
    exact ⟨last, folded, lastInRange, grows.trans later⟩

theorem resolves_state (known : List String) {state : State} (within : state.InRange) :
    Resolves state.graph (resolve? known state) := by
  obtain ⟨linked, isLinked, inRange, grows⟩ := resolves_foldlM
    (fun graph (inheritance : Inheritance) => inheritance.tableScope < graph.scopes.length ∧
      inheritance.scope < graph.scopes.length)
    (fun _ _ inRange fits => resolves_inheritance inRange fits.1 fits.2)
    (fun _ _ _ grows fits => ⟨Nat.lt_of_lt_of_le fits.1 grows.scopes,
      Nat.lt_of_lt_of_le fits.2 grows.scopes⟩)
    ⟨state.graph, state.diagnostics, []⟩ within.graph within.inheritances
  obtain ⟨last, isLast, lastInRange, later⟩ := resolves_foldlM
    (fun graph (reference : Reference) => reference.scope < graph.scopes.length)
    (fun _ _ inRange fits => resolves_reference known inRange fits)
    (fun _ _ _ grows fits => Nat.lt_of_lt_of_le fits grows.scopes) linked inRange
    (fun reference member =>
      Nat.lt_of_lt_of_le (within.references reference member) grows.scopes)
  unfold resolve?
  rw [isLinked]
  exact ⟨last, isLast, lastInRange, grows.trans later⟩

structure InRange (analysis : Analysis) : Prop where
  graph : analysis.graph.InRange
  references : ∀ reference ∈ analysis.references,
    reference.scope < analysis.graph.scopes.length
  inheritances : ∀ inheritance ∈ analysis.inheritances,
    inheritance.tableScope < analysis.graph.scopes.length ∧
      inheritance.scope < analysis.graph.scopes.length

theorem made_of_shaped [NestingLimit] {source : String} (shaped : (parse source).tree.isShaped) :
    Made (parse source).tree (parse source).tree := by
  have program : (parse source).tree.label? = some .program := rfl
  exact ⟨rfl, Bool.and_eq_true_iff.mpr ⟨shaped, composed_parse source⟩, by simp [program]⟩

theorem walkTree_ok [NestingLimit] {source : String} (shaped : (parse source).tree.isShaped) :
    ∃ state complete, walkTree? (parse source).tree = .ok (state, complete) ∧ state.InRange ∧
      (complete → ∀ reference ∈ state.references,
        Cites ((parse source).tree.timed false) reference) := by
  have made : ∀ own ∈ some ((parse source).tree.timed false),
      Made (parse source).tree (parse source).tree ∧ (parse source).tree.timed false ⊆ own := by
    rintro _ ⟨⟩
    exact ⟨made_of_shaped shaped, List.Subset.refl _⟩
  have walked := safeVisitor_walk _ nestingLimit made rfl inRange_initial
  unfold walkTree?
  split at walked
  · next value after ran =>
    obtain ⟨leads, -⟩ := walked
    rw [ran]
    refine ⟨after, true, rfl, leads.run.inRange inRange_initial, fun _ reference member => ?_⟩
    rcases leads.references reference member with old | cites
    · cases old
    · exact cites _ rfl
  · next after ran =>
    rw [ran]
    exact ⟨after, false, rfl, walked.inRange inRange_initial, nofun⟩
  · cases walked

theorem analyzeTree_ok [NestingLimit] (known : List String) {source : String}
    (shaped : (parse source).tree.isShaped) :
    ∃ analysis, analyzeTree? known (parse source).tree = .ok analysis ∧ InRange analysis := by
  obtain ⟨state, complete, walked, within, -⟩ := walkTree_ok shaped
  obtain ⟨resolved, isResolved, inRange, grows⟩ := resolves_state known within
  unfold analyzeTree?
  rw [ok_bind _ walked]
  dsimp only
  rw [isResolved]
  refine ⟨_, rfl, inRange, fun reference member => ?_, fun inheritance member => ?_⟩
  · exact Nat.lt_of_lt_of_le (within.references reference member) grows.scopes
  · obtain ⟨table, scope⟩ := within.inheritances inheritance member
    exact ⟨Nat.lt_of_lt_of_le table grows.scopes, Nat.lt_of_lt_of_le scope grows.scopes⟩

end Squirrel.Analysis
