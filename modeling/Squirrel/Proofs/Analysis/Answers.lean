import Squirrel.Proofs.Analysis.Collected
import Squirrel.Proofs.Safety

/-! Every use of a name is answered by the declaration that the name stands for there. -/

namespace Squirrel.Analysis

open ScopeGraph (Visit Path)

variable {graph : ScopeGraph} {reference : Reference}

/-- Whether a reference sees a declaration in a scope on its way. Nothing is hidden in a table or
in what is inherited, and code inside functions sees all of the root. -/
def admits (graph : ScopeGraph) (reference : Reference) (visit : Visit)
    (number : DeclarationId) : Bool :=
  visit.inherited ||
    graph.scopes[visit.scope]?.any (fun scope =>
      scope.kind = .table || (scope.kind = .root && reference.deferred)) ||
    graph.declarations[number]?.any (·.seq < reference.seq)

def admissible (graph : ScopeGraph) (reference : Reference) (visit : Visit) :
    List DeclarationId :=
  (graph.declarationsOf visit.scope reference.name).filter (admits graph reference visit)

/-- The first scope on the way with an admissible declaration supplies its latest one. -/
def supplied (graph : ScopeGraph) (path : List Visit) (reference : Reference) :
    Option DeclarationId :=
  path.findSome? fun visit => (admissible graph reference visit).getLast?

def passesOpen (graph : ScopeGraph) (path : List Visit) : Bool :=
  path.any fun visit => graph.scopes[visit.scope]?.any (·.isOpen)

/-- A name that nothing stands for. A function that is called may come from an unknown base. -/
def isUndeclared (known : List String) (graph : ScopeGraph) (path : List Visit)
    (reference : Reference) : Bool :=
  (supplied graph path reference).isNone && !builtins.contains reference.name &&
    !known.contains reference.name && !(reference.isCall && passesOpen graph path)

def undeclaredAt (reference : Reference) : Diagnostic :=
  ⟨.semantic (.undeclared reference.name), .error, reference.span⟩

def isUnused (declaration : Declaration) : Bool :=
  (declaration.kind = .localVariable || declaration.kind = .parameter) &&
    declaration.reads = 0 && !declaration.quiet && declaration.name ≠ discard

def unusedAt (declaration : Declaration) : Diagnostic :=
  ⟨.semantic (.unused declaration.name),
    if declaration.kind = .localVariable then .warning else .hint, declaration.span⟩

def uncounted (declaration : Declaration) : Declaration :=
  { declaration with reads := 0, writes := 0 }

/-- Each reference counts for the declaration that is supplied on its path, and what is reported
follows from that. -/
structure Answered (known : List String) (paths : ScopeId → List Visit) (analysis : Analysis) :
    Prop where
  followed : ∀ reference ∈ analysis.references, ∀ path,
    Path analysis.graph reference.scope path ↔ path = paths reference.scope
  ordered : (analysis.graph.declarations.map (·.seq)).Pairwise (· < ·)
  reads : ∀ number declaration, analysis.graph.declarations[number]? = some declaration →
    declaration.reads = analysis.references.countP fun reference =>
      reference.isRead && supplied analysis.graph (paths reference.scope) reference = some number
  writes : ∀ number declaration, analysis.graph.declarations[number]? = some declaration →
    declaration.writes = analysis.references.countP fun reference =>
      reference.isWrite && supplied analysis.graph (paths reference.scope) reference = some number
  undeclared : analysis.diagnostics.filter (·.kind = .undeclaredReference) =
    (analysis.references.filter fun reference =>
      isUndeclared known analysis.graph (paths reference.scope) reference).map undeclaredAt
  unused : analysis.diagnostics.filter (·.kind = .unusedLocal) =
    (analysis.graph.declarations.filter isUnused).map unusedAt

section Searching

theorem declarationAt_eq (filed : graph.Filed) {visit : Visit} {scope : Scope}
    (found : graph.scopes[visit.scope]? = some scope) :
    graph.declarationAt? scope visit.inherited reference.name reference.seq reference.deferred =
      (admissible graph reference visit).getLast? := by
  have listed := filed.listed visit.scope scope found reference.name
  unfold admissible ScopeGraph.declarationAt? ScopeGraph.visible?
  rw [listed]
  split
  · next inherited =>
    rw [List.filter_eq_self.mpr fun number _ => by simp [admits, inherited]]
  · next direct =>
    rw [← List.head?_filter, List.filter_reverse, List.head?_reverse]
    congr 2
    funext number
    simp [ScopeGraph.isVisible, ScopeGraph.isBefore, admits, found, direct]

theorem search_supplied (reference : Reference) (filed : graph.Filed) (passed : Bool) {visits : List Visit}
    (inside : ∀ visit ∈ visits, visit.scope < graph.scopes.length) :
    ∃ found, graph.search reference.name reference.seq reference.deferred passed visits =
        .ok found ∧
      found.declaration? = supplied graph visits reference ∧
      (found.declaration? = none → found.passedOpen = (passed || passesOpen graph visits)) := by
  induction visits generalizing passed with
  | nil => exact ⟨⟨none, passed⟩, rfl, rfl, fun _ => by simp [passesOpen]⟩
  | cons visit visits ih =>
    obtain ⟨first, others⟩ := List.forall_mem_cons.mp inside
    have found := List.getElem?_eq_getElem first
    have given : graph.scope visit.scope = .ok graph.scopes[visit.scope] := by
      rw [ScopeGraph.scope, found]
    rw [ScopeGraph.search, ok_bind _ given, supplied, List.findSome?_cons,
      ← declarationAt_eq filed found]
    cases graph.declarationAt? graph.scopes[visit.scope] visit.inherited reference.name
        reference.seq reference.deferred with
    | some number => exact ⟨⟨some number, passed⟩, rfl, rfl, fun missing => by cases missing⟩
    | none =>
      obtain ⟨last, isLast, same, opened⟩ := ih (passed || graph.scopes[visit.scope].isOpen) others
      refine ⟨last, isLast, same, fun missing => ?_⟩
      have around : passesOpen graph (visit :: visits) =
          (graph.scopes[visit.scope].isOpen || passesOpen graph visits) := by
        simp [passesOpen, found]
      rw [opened missing, around, Bool.or_assoc]

end Searching

section Counting

variable {counted : List Reference}

def answer (graph : ScopeGraph) (reference : Reference) : Option DeclarationId :=
  supplied graph (graph.visits reference.scope) reference

/-- How many references a declaration answers, of those that are of some use to it. -/
def uses (graph : ScopeGraph) (references : List Reference) (isUse : Reference → Bool)
    (number : DeclarationId) : Nat :=
  references.countP fun reference => isUse reference && answer graph reference = some number

def counting (graph : ScopeGraph) (references : List Reference) : ScopeGraph :=
  { graph with
    declarations := graph.declarations.mapIdx fun number declaration =>
      { declaration with
        reads := declaration.reads + uses graph references (·.isRead) number
        writes := declaration.writes + uses graph references (·.isWrite) number } }

theorem getElem_counting (number : DeclarationId) :
    (counting graph counted).declarations[number]? =
      graph.declarations[number]?.map fun declaration =>
        { declaration with
          reads := declaration.reads + uses graph counted (·.isRead) number
          writes := declaration.writes + uses graph counted (·.isWrite) number } :=
  List.getElem?_mapIdx

variable {number : DeclarationId}

theorem of_getElem_counting {declaration : Declaration}
    (found : (counting graph counted).declarations[number]? = some declaration) :
    ∃ earlier ∈ graph.declarations,
      declaration.reads = earlier.reads + uses graph counted (·.isRead) number ∧
        declaration.writes = earlier.writes + uses graph counted (·.isWrite) number := by
  rw [getElem_counting] at found
  obtain ⟨earlier, isEarlier, rfl⟩ := Option.map_eq_some_iff.mp found
  exact ⟨earlier, List.mem_of_getElem? isEarlier, rfl, rfl⟩

theorem counting_ext {other : ScopeGraph} (scopes : other.scopes = graph.scopes)
    (declarations : ∀ number : DeclarationId, other.declarations[number]? =
      (counting graph counted).declarations[number]?) : other = counting graph counted := by
  obtain ⟨others, listed⟩ := other
  cases scopes
  exact congrArg (ScopeGraph.mk _) (List.ext_getElem? declarations)

theorem counting_nil : counting graph [] = graph := by
  refine (counting_ext rfl fun number => ?_).symm
  rw [getElem_counting]
  exact Option.map_id'.symm

theorem map_counting {α : Type} {view : Declaration → α}
    (blind : ∀ (declaration : Declaration) reads writes,
      view { declaration with reads := reads, writes := writes } = view declaration) :
    (counting graph counted).declarations.map view = graph.declarations.map view := by
  refine List.ext_getElem? fun number => ?_
  rw [List.getElem?_map, getElem_counting, List.getElem?_map, Option.map_map]
  exact congrArg (Option.map · _) (funext fun declaration => blind declaration _ _)

theorem visits_counting (graph : ScopeGraph) (counted : List Reference) (id : ScopeId) :
    (counting graph counted).visits id = graph.visits id :=
  ScopeGraph.visits_redeclare _ id

theorem supplied_counting (path : List Visit) (reference : Reference) :
    supplied (counting graph counted) path reference = supplied graph path reference := by
  have places (id : ScopeId) : (counting graph counted).declarationsOf id reference.name =
      graph.declarationsOf id reference.name :=
    ScopeGraph.declarationsOf_congr (map_counting fun _ _ _ => rfl)
  have seen (visit : Visit) : admits (counting graph counted) reference visit =
      admits graph reference visit := by
    funext number
    simp [admits, counting, Option.any_map]
  simp [supplied, admissible, places, seen]

theorem isUndeclared_counting (known : List String) (path : List Visit) (reference : Reference) :
    isUndeclared known (counting graph counted) path reference =
      isUndeclared known graph path reference := by
  rw [isUndeclared, supplied_counting]
  rfl

theorem uses_append (isUse : Reference → Bool) (number : DeclarationId) :
    uses graph (counted ++ [reference]) isUse number =
      uses graph counted isUse number +
        if isUse reference && answer graph reference = some number then 1 else 0 := by
  rw [uses, uses, List.countP_append, List.countP_singleton]

theorem counting_answered (supplies : answer graph reference = some number) :
    (counting graph counted).updateDeclaration number (fun declaration =>
      { declaration with
        reads := declaration.reads + if reference.isRead then 1 else 0
        writes := declaration.writes + if reference.isWrite then 1 else 0 }) =
      counting graph (counted ++ [reference]) := by
  refine counting_ext rfl fun other => ?_
  rw [ScopeGraph.updateDeclaration, List.getElem?_modify, getElem_counting, getElem_counting]
  cases graph.declarations[other]? with
  | none => rfl
  | some declaration =>
    by_cases same : number = other
    · simp [same, uses_append, supplies, Nat.add_assoc]
    · simp [same, uses_append, supplies]

theorem counting_unanswered (missing : answer graph reference = none) :
    counting graph (counted ++ [reference]) = counting graph counted := by
  refine counting_ext rfl fun number => ?_
  simp [getElem_counting, uses_append, missing]

theorem supplied_lt {path : List Visit} (supplies : supplied graph path reference = some number) :
    number < graph.declarations.length := by
  obtain ⟨visit, -, last⟩ := List.exists_of_findSome?_eq_some supplies
  have listed := List.mem_of_getLast? last
  exact List.mem_range.mp (List.mem_of_mem_filter (List.mem_of_mem_filter listed))

theorem resolveReference_counting (known : List String) (filed : graph.Filed)
    (within : graph.InRange) (inside : reference.scope < graph.scopes.length)
    (diagnostics : List Diagnostic) (openBases : List (Option String)) :
    resolveReference known ⟨counting graph counted, diagnostics, openBases⟩ reference =
      .ok ⟨counting graph (counted ++ [reference]), diagnostics ++
        if isUndeclared known graph (graph.visits reference.scope) reference
        then [undeclaredAt reference] else [], openBases⟩ := by
  have countedFiled : (counting graph counted).Filed :=
    filed.redeclare (map_counting fun _ _ _ => rfl)
  obtain ⟨found, isFound, same, opened⟩ :=
    search_supplied reference countedFiled false (within.visits inside)
  rw [supplied_counting] at same
  have lookup : (counting graph counted).lookup reference.scope reference.name reference.seq
      reference.deferred = .ok found := by
    rw [ScopeGraph.lookup, visits_counting]
    exact isFound
  unfold resolveReference
  rw [ok_bind _ lookup]
  cases here : found.declaration? with
  | some number =>
    have supplies : answer graph reference = some number := same.symm.trans here
    have listed : number < (counting graph counted).declarations.length := by
      simpa [counting] using supplied_lt supplies
    obtain ⟨declaration, -, given⟩ := ScopeGraph.declaration_ok listed
    have declared : isUndeclared known graph (graph.visits reference.scope) reference = false := by
      rw [answer] at supplies
      simp [isUndeclared, supplies]
    dsimp only
    rw [ok_bind _ given, ← counting_answered supplies, declared]
    simp [pure, Except.pure]
  | none =>
    have missing : answer graph reference = none := same.symm.trans here
    have around : found.passedOpen = passesOpen graph (graph.visits reference.scope) :=
      (opened here).trans (Bool.false_or _)
    have reported : isUndeclared known graph (graph.visits reference.scope) reference =
        !((builtins.contains reference.name || known.contains reference.name) ||
          (reference.isCall && found.passedOpen)) := by
      rw [answer] at missing
      simp [isUndeclared, missing, around, Bool.and_assoc]
    dsimp only
    rw [counting_unanswered missing, reported]
    cases builtins.contains reference.name || known.contains reference.name with
    | true => simp [pure, Except.pure]
    | false =>
      cases reference.isCall && found.passedOpen with
      | true => simp [pure, Except.pure]
      | false => rfl

theorem foldlM_resolveReference (counted : List Reference) (known : List String) (filed : graph.Filed)
    (within : graph.InRange) {references : List Reference}
    (inside : ∀ reference ∈ references, reference.scope < graph.scopes.length)
    (diagnostics : List Diagnostic) (openBases : List (Option String)) :
    references.foldlM (resolveReference known)
        ⟨counting graph counted, diagnostics, openBases⟩ =
      .ok ⟨counting graph (counted ++ references), diagnostics ++
        (references.filter fun reference =>
          isUndeclared known graph (graph.visits reference.scope) reference).map undeclaredAt,
        openBases⟩ := by
  induction references generalizing counted diagnostics with
  | nil => simp [pure, Except.pure]
  | cons reference references ih =>
    obtain ⟨first, others⟩ := List.forall_mem_cons.mp inside
    rw [List.foldlM_cons, ok_bind _ (resolveReference_counting known filed within first _ _),
      ih _ others]
    by_cases isMissing : isUndeclared known graph (graph.visits reference.scope) reference
    · simp [isMissing]
    · simp [isMissing]

end Counting

section Linking

variable {resolved : Resolved} {declarations : List Declaration} {inheritance : Inheritance}

/-- All that holds while tables are linked to their bases. -/
structure Linked (declarations : List Declaration) (resolved : Resolved) : Prop where
  within : resolved.graph.InRange
  nested : resolved.graph.Nested
  filed : resolved.graph.Filed
  acyclic : resolved.graph.Acyclic
  declarations : resolved.graph.declarations = declarations
  duplicates : ∀ diagnostic ∈ resolved.diagnostics, diagnostic.kind = .duplicateDeclaration

theorem linkFallback_cases {id target : ScopeId} {linked : Bool} {after : ScopeGraph}
    (done : graph.linkFallback id target = .ok (linked, after)) :
    after = graph ∨ after = graph.updateScope id ({ · with fallback := some target }) := by
  unfold ScopeGraph.linkFallback at done
  cases answered : graph.occursOn id (graph.fallbackChain graph.chainBound [] (some target)) with
  | error error =>
    rw [answered] at done
    cases done
  | ok occurs =>
    rw [ok_bind _ answered] at done
    cases occurs with
    | true =>
      cases done
      exact .inl rfl
    | false =>
      cases given : graph.scope id with
      | error error =>
        rw [given] at done
        cases done
      | ok scope =>
        rw [given] at done
        cases done
        exact .inr rfl

theorem linked_inheritance (linked : Linked declarations resolved)
    (table : inheritance.tableScope < resolved.graph.scopes.length)
    (inside : inheritance.scope < resolved.graph.scopes.length) :
    ∃ next, resolveInheritance resolved inheritance = .ok next ∧ Linked declarations next ∧
      resolved.graph.scopes.length = next.graph.scopes.length := by
  obtain ⟨name, declared, based, declaredInside⟩ := resolveBase_ok linked.within inside
  obtain ⟨target, isTarget, targetInside⟩ := tableScope_ok linked.within declaredInside
  unfold resolveInheritance
  rw [ok_bind _ based]
  dsimp only
  rw [ok_bind _ isTarget]
  cases target with
  | none =>
    obtain ⟨scope, -, given⟩ := ScopeGraph.scope_ok table
    refine ⟨⟨resolved.graph.updateScope inheritance.tableScope ({ · with isOpen := true }),
      resolved.diagnostics, resolved.openBases ++ [name]⟩, ?_, ?_, by simp⟩
    · simp only [ScopeGraph.trySetOpen, given]
      rfl
    · exact { linked with
        within := linked.within.updateScope fun scope own => ⟨own.parent, own.fallback, own.names⟩
        nested := linked.nested.updateScope fun _ => rfl
        filed := linked.filed.updateScope fun _ => rfl
        acyclic := linked.acyclic.updateScope fun _ => rfl }
  | some target =>
    obtain ⟨isLinked, after, done, inRange, -⟩ :=
      linked.within.linkFallback table (targetInside target rfl)
    have acyclic := linked.acyclic.linkFallback table (targetInside target rfl) done
    dsimp only
    rw [ok_bind _ done]
    cases isLinked with
    | true =>
      refine ⟨{ resolved with graph := after }, rfl, ?_⟩
      rcases linkFallback_cases done with rfl | rfl
      · exact ⟨linked, rfl⟩
      · exact ⟨{ linked with
          within := inRange
          nested := linked.nested.updateScope fun _ => rfl
          filed := linked.filed.updateScope fun _ => rfl
          acyclic := acyclic }, by simp⟩
    | false =>
      refine ⟨_, rfl, { linked with duplicates := fun diagnostic member => ?_ }, rfl⟩
      rcases List.mem_append.mp member with old | new
      · exact linked.duplicates diagnostic old
      · rw [List.mem_singleton.mp new]
        rfl

theorem linked_inheritances (linked : Linked declarations resolved)
    {inheritances : List Inheritance}
    (inside : ∀ inheritance ∈ inheritances,
      inheritance.tableScope < resolved.graph.scopes.length ∧
        inheritance.scope < resolved.graph.scopes.length) :
    ∃ last, inheritances.foldlM resolveInheritance resolved = .ok last ∧
      Linked declarations last ∧
      resolved.graph.scopes.length = last.graph.scopes.length := by
  induction inheritances generalizing resolved with
  | nil => exact ⟨resolved, rfl, linked, rfl⟩
  | cons inheritance inheritances ih =>
    obtain ⟨⟨table, scope⟩, others⟩ := List.forall_mem_cons.mp inside
    obtain ⟨next, stepped, nextLinked, same⟩ := linked_inheritance linked table scope
    obtain ⟨last, folded, lastLinked, still⟩ := ih nextLinked (same ▸ others)
    rw [List.foldlM_cons, ok_bind _ stepped]
    exact ⟨last, folded, lastLinked, same.trans still⟩

end Linking

theorem unusedDiagnostics_eq (graph : ScopeGraph) :
    unusedDiagnostics graph = (graph.declarations.filter isUnused).map unusedAt := by
  have one (declaration : Declaration) :
      (unusedSeverity? declaration).map (fun severity =>
          (⟨.semantic (.unused declaration.name), severity, declaration.span⟩ : Diagnostic)) =
        if isUnused declaration then some (unusedAt declaration) else none := by
    unfold unusedSeverity? isUnused unusedAt
    by_cases excused : 0 < declaration.reads ∨ declaration.quiet ∨ declaration.name = discard
    · rw [if_pos excused]
      rcases excused with isRead | isQuiet | discarded
      · simp [Nat.ne_of_gt isRead]
      · simp [isQuiet]
      · simp [discarded]
    · rw [if_neg excused]
      simp only [not_or, Nat.not_lt, Nat.le_zero] at excused
      obtain ⟨unread, loud, named⟩ := excused
      cases kind : declaration.kind <;> simp [unread, loud, named]
  rw [unusedDiagnostics, ← List.filterMap_eq_map, List.filterMap_filter]
  exact List.filterMap_congr fun declaration _ => one declaration

variable {diagnostics : List Diagnostic}

theorem filter_kind_nil {kind other : FaultKind}
    (all : ∀ diagnostic ∈ diagnostics, diagnostic.kind = other) (different : other ≠ kind) :
    diagnostics.filter (·.kind = kind) = [] :=
  List.filter_eq_nil_iff.mpr fun diagnostic member => by
    simpa [all diagnostic member] using different

theorem filter_kind_self {kind : FaultKind}
    (all : ∀ diagnostic ∈ diagnostics, diagnostic.kind = kind) :
    diagnostics.filter (·.kind = kind) = diagnostics :=
  List.filter_eq_self.mpr fun diagnostic member => decide_eq_true (all diagnostic member)

theorem kind_undeclaredAt (references : List Reference) :
    ∀ diagnostic ∈ references.map undeclaredAt, diagnostic.kind = .undeclaredReference :=
  List.forall_mem_map.mpr fun _ _ => rfl

theorem kind_unusedAt (declarations : List Declaration) :
    ∀ diagnostic ∈ declarations.map unusedAt, diagnostic.kind = .unusedLocal :=
  List.forall_mem_map.mpr fun _ _ => rfl

theorem linked_collected {state : State} (collected : Collected state) (within : state.InRange) :
    Linked state.graph.declarations ⟨state.graph, state.diagnostics, []⟩ where
  within := within.graph
  nested := collected.nested
  filed := collected.filed
  acyclic _ inside :=
    ⟨[], .nothing (List.getElem?_eq_getElem inside) (collected.unlinked _ (List.getElem_mem _)).1⟩
  declarations := rfl
  duplicates diagnostic member := by
    obtain ⟨name, duplicate⟩ := collected.duplicates diagnostic member
    rw [Diagnostic.kind, duplicate]
    rfl

variable {state : State} {linked : Resolved}

theorem resolve_linked (known : List String)
    {declarations : List Declaration}
    (folded : state.inheritances.foldlM resolveInheritance ⟨state.graph, state.diagnostics, []⟩ =
      .ok linked) (isLinked : Linked declarations linked)
    (inside : ∀ reference ∈ state.references, reference.scope < linked.graph.scopes.length) :
    resolve? known state = .ok ⟨counting linked.graph state.references, linked.diagnostics ++
      (state.references.filter fun reference => isUndeclared known linked.graph
        (linked.graph.visits reference.scope) reference).map undeclaredAt,
      linked.openBases⟩ := by
  have counted := foldlM_resolveReference [] known isLinked.filed isLinked.within inside
    linked.diagnostics linked.openBases
  rw [counting_nil, List.nil_append] at counted
  unfold resolve?
  rw [ok_bind _ folded]
  exact counted

theorem resolve_collected (known : List String) (collected : Collected state)
    (within : state.InRange) :
    ∃ linked : Resolved, Linked state.graph.declarations linked ∧
      state.graph.scopes.length = linked.graph.scopes.length ∧
      resolve? known state = .ok ⟨counting linked.graph state.references, linked.diagnostics ++
        (state.references.filter fun reference => isUndeclared known linked.graph
          (linked.graph.visits reference.scope) reference).map undeclaredAt,
        linked.openBases⟩ := by
  obtain ⟨linked, folded, isLinked, same⟩ :=
    linked_inheritances (linked_collected collected within) within.inheritances
  exact ⟨linked, isLinked, same, resolve_linked known folded isLinked (same ▸ within.references)⟩

theorem answered_counting {known : List String} (collected : Collected state)
    (isLinked : Linked state.graph.declarations linked)
    (inside : ∀ reference ∈ state.references, reference.scope < linked.graph.scopes.length)
    (complete : Bool) :
    Answered known linked.graph.visits {
      graph := counting linked.graph state.references
      references := state.references
      inheritances := state.inheritances
      diagnostics := (linked.diagnostics ++
        (state.references.filter fun reference => isUndeclared known linked.graph
          (linked.graph.visits reference.scope) reference).map undeclaredAt) ++
        unusedDiagnostics (counting linked.graph state.references)
      openBases := linked.openBases
      complete := complete } where
  followed reference member path := by
    have ours : Path (counting linked.graph state.references) reference.scope
        (linked.graph.visits reference.scope) := by
      rw [← visits_counting linked.graph state.references]
      exact ScopeGraph.path_visits isLinked.nested (isLinked.acyclic.redeclare _)
        (inside reference member)
    constructor
    · exact fun other => other.unique ours
    · rintro rfl
      exact ours
  ordered := by
    have same : (counting linked.graph state.references).declarations.map (·.seq) =
        linked.graph.declarations.map (·.seq) := map_counting fun _ _ _ => rfl
    rw [same, isLinked.declarations]
    exact collected.ordered
  reads number declaration found := by
    obtain ⟨earlier, member, reads, -⟩ := of_getElem_counting found
    rw [isLinked.declarations] at member
    rw [reads, (collected.uncounted earlier member).1, Nat.zero_add]
    simp only [supplied_counting]
    rfl
  writes number declaration found := by
    obtain ⟨earlier, member, -, writes⟩ := of_getElem_counting found
    rw [isLinked.declarations] at member
    rw [writes, (collected.uncounted earlier member).2, Nat.zero_add]
    simp only [supplied_counting]
    rfl
  undeclared := by
    rw [List.filter_append, List.filter_append, filter_kind_nil isLinked.duplicates (by decide),
      filter_kind_self (kind_undeclaredAt _), unusedDiagnostics_eq,
      filter_kind_nil (kind_unusedAt _) (by decide), List.nil_append, List.append_nil]
    simp only [isUndeclared_counting]
  unused := by
    rw [List.filter_append, List.filter_append, filter_kind_nil isLinked.duplicates (by decide),
      filter_kind_nil (kind_undeclaredAt _) (by decide), unusedDiagnostics_eq,
      filter_kind_self (kind_unusedAt _), List.nil_append, List.nil_append]

theorem map_uncounted (collected : Collected state)
    (isLinked : Linked state.graph.declarations linked) (counted : List Reference) :
    (counting linked.graph counted).declarations.map uncounted = state.graph.declarations := by
  rw [map_counting fun _ _ _ => rfl, isLinked.declarations]
  have same : ∀ declaration ∈ state.graph.declarations, uncounted declaration = declaration := by
    rintro ⟨name, kind, span, scope, seq, reads, writes, table, quiet⟩ member
    obtain ⟨rfl, rfl⟩ := collected.uncounted _ member
    rfl
  rw [List.map_congr_left same, List.map_id']

end Squirrel.Analysis

namespace Squirrel

open Analysis

/-- Whatever the text is, every name that the walk collects is resolved as the scopes around it
say, and nothing but the counts of the declarations changes. -/
theorem parse_answered [NestingLimit] (known : List String) (source : String) :
    ∃ state complete analysis paths,
      walkTree? (parse source).tree = .ok (state, complete) ∧
      analyzeTree? known (parse source).tree = .ok analysis ∧
      analysis.references = state.references ∧
      analysis.graph.declarations.map uncounted = state.graph.declarations ∧
      Answered known paths analysis := by
  obtain ⟨state, complete, walked, within, -⟩ := walkTree_ok (shaped_parse source)
  have collected := Run.collected (walkTree_run walked) collected_initial
  obtain ⟨linked, isLinked, same, resolved⟩ := resolve_collected known collected within
  refine ⟨state, complete, _, linked.graph.visits, walked, ?_, rfl,
    map_uncounted collected isLinked _,
    answered_counting collected isLinked (same ▸ within.references) complete⟩
  unfold analyzeTree?
  rw [ok_bind _ walked]
  dsimp only
  rw [resolved]
  rfl

end Squirrel
