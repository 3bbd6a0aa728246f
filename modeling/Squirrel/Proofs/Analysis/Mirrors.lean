import Squirrel.Proofs.Analysis.Answers
import Squirrel.Proofs.Analysis.Rearranged

/-! Graphs that differ in their numbers only. A name that is looked up in both of them is answered by
the same declaration. -/

namespace Squirrel.Analysis

open ScopeGraph

section Graphs

def Numbering.outline (numbering : Numbering)
    (seen : ScopeKind × Option ScopeId × Option ScopeId × Bool) :
    ScopeKind × Option ScopeId × Option ScopeId × Bool :=
  (seen.1, seen.2.1.map numbering.scopes, seen.2.2.1.map numbering.scopes, seen.2.2.2)

def Numbering.visit (numbering : Numbering) (visit : Visit) : Visit :=
  ⟨numbering.scopes visit.scope, visit.inherited⟩

/-- The second graph is the first one with other numbers. If the order is `loose`, then the names of
the root scope may stand in another order. -/
structure Mirrors (loose : Bool) (numbering : Numbering) (one two : ScopeGraph) : Prop where
  scopes : ∀ {id : ScopeId} {scope : Scope}, one.scopes[id]? = some scope →
    ∃ other, two.scopes[numbering.scopes id]? = some other ∧
      outline other = numbering.outline (outline scope)
  injective : ∀ {id other : ScopeId}, id < one.scopes.length → other < one.scopes.length →
    numbering.scopes id = numbering.scopes other → id = other
  rooted : ∃ scope : Scope, one.scopes[root]? = some scope ∧ scope.kind = .root
  declarations : ∀ {number : DeclarationId} {declaration : Declaration},
    one.declarations[number]? = some declaration →
    ∃ other, two.declarations[numbering.declarations number]? = some other ∧
      other.tableScope = declaration.tableScope.map numbering.scopes
  names : ∀ {id : ScopeId}, id < one.scopes.length → (loose → id ≠ root) → ∀ name,
    two.declarationsOf (numbering.scopes id) name =
      (one.declarationsOf id name).map numbering.declarations
  rootNames : ∀ name, two.declarationsOf root name = [] ↔ one.declarationsOf root name = []

variable {loose : Bool} {numbering : Numbering} {one two : ScopeGraph} {id : ScopeId}

theorem Numbering.root (numbering : Numbering) : numbering.scopes ScopeGraph.root = ScopeGraph.root :=
  (numbering.rooted _).mpr rfl

variable (mirrors : Mirrors loose numbering one two)

include mirrors

theorem Mirrors.inside (inside : id < one.scopes.length) :
    numbering.scopes id < two.scopes.length := by
  obtain ⟨other, found, -⟩ := mirrors.scopes (List.getElem?_eq_getElem inside)
  exact (List.getElem?_eq_some_iff.mp found).1

omit mirrors in
theorem outline_fallback {scope other : Scope} (same : outline other = numbering.outline (outline scope)) :
    other.fallback = scope.fallback.map numbering.scopes :=
  congrArg (·.2.2.1) same

omit mirrors in
theorem outline_parent {scope other : Scope} (same : outline other = numbering.outline (outline scope)) :
    other.parent = scope.parent.map numbering.scopes :=
  congrArg (·.2.1) same

theorem Mirrors.inherits {bases : List ScopeId} (inherits : Inherits one id bases) :
    Inherits two (numbering.scopes id) (bases.map numbering.scopes) := by
  induction inherits with
  | nothing found ends =>
    obtain ⟨other, isOther, same⟩ := mirrors.scopes found
    refine .nothing isOther ?_
    rw [outline_fallback same, ends]
    rfl
  | base found linked _ ih =>
    obtain ⟨other, isOther, same⟩ := mirrors.scopes found
    refine .base isOther ?_ ih
    rw [outline_fallback same, linked]
    rfl

theorem Mirrors.path {visits : List Visit} (path : Path one id visits) :
    Path two (numbering.scopes id) (visits.map numbering.visit) := by
  have inherited (bases : List ScopeId) : (bases.map (⟨·, true⟩ : ScopeId → Visit)).map numbering.visit =
      (bases.map numbering.scopes).map (⟨·, true⟩) := by
    rw [List.map_map, List.map_map]
    rfl
  induction path with
  | root found outermost inherits =>
    obtain ⟨other, isOther, same⟩ := mirrors.scopes found
    have bases := mirrors.inherits inherits
    rw [List.map_cons, inherited, Numbering.visit, numbering.root]
    rw [numbering.root] at isOther bases
    refine .root isOther ?_ bases
    rw [outline_parent same, outermost]
    rfl
  | inner found nested inherits _ ih =>
    obtain ⟨other, isOther, same⟩ := mirrors.scopes found
    rw [List.map_append, List.map_cons, inherited]
    refine .inner isOther ?_ (mirrors.inherits inherits) ih
    rw [outline_parent same, nested]
    rfl

theorem Mirrors.visits (nested : one.Nested) (acyclic : one.Acyclic) (nested' : two.Nested)
    (acyclic' : two.Acyclic) (inside : id < one.scopes.length) :
    two.visits (numbering.scopes id) = (one.visits id).map numbering.visit :=
  (path_visits nested' acyclic' (mirrors.inside inside)).unique
    (mirrors.path (path_visits nested acyclic inside))

theorem Mirrors.updateScope
    (inside : id < one.scopes.length) {update change : Scope → Scope}
    (kept : ∀ scope : Scope, (update scope).kind = scope.kind)
    (agrees : ∀ {scope other : Scope}, outline other = numbering.outline (outline scope) →
      outline (change other) = numbering.outline (outline (update scope))) :
    Mirrors loose numbering (one.updateScope id update)
      (two.updateScope (numbering.scopes id) change) where
  scopes {place scope} found := by
    obtain ⟨earlier, isEarlier, rfl⟩ := of_getElem_updateScope found
    obtain ⟨other, isOther, same⟩ := mirrors.scopes isEarlier
    have within := (List.getElem?_eq_some_iff.mp isEarlier).1
    rw [ScopeGraph.updateScope, List.getElem?_modify, isOther]
    refine ⟨_, rfl, ?_⟩
    dsimp only
    by_cases here : id = place
    · rw [here, if_pos rfl, if_pos rfl]
      exact agrees same
    · rw [if_neg here, if_neg fun equal => here (mirrors.injective inside within equal)]
      exact same
  injective {place other} := by
    rw [length_updateScope]
    exact mirrors.injective
  rooted := by
    obtain ⟨scope, found, isRoot⟩ := mirrors.rooted
    rw [ScopeGraph.updateScope, List.getElem?_modify, found]
    refine ⟨_, rfl, ?_⟩
    split
    · rw [kept, isRoot]
    · exact isRoot
  declarations := mirrors.declarations
  names {place} := by
    rw [length_updateScope]
    exact mirrors.names
  rootNames := mirrors.rootNames

end Graphs

variable {early late : Option DeclarationId}

section Asking

structure Enclosed (graph : ScopeGraph) (around : List ScopeId) (id : ScopeId) : Prop where
  start : id ∈ around
  closed : ∀ other ∈ around, ∀ scope : Scope, graph.scopes[other]? = some scope →
    ∀ next ∈ scope.parent, next ∈ around

variable {loose : Bool} {numbering : Numbering} {one two graph : ScopeGraph} {id : ScopeId}
  {around : List ScopeId} {first second : Reference}

theorem Enclosed.visits (enclosed : Enclosed graph around id) {visits : List Visit}
    (path : Path graph id visits) :
    ∀ visit ∈ visits, visit.inherited = false → visit.scope ∈ around := by
  have bare {id : ScopeId} (start : id ∈ around) (bases : List ScopeId) :
      ∀ visit ∈ (⟨id, false⟩ : Visit) :: bases.map (⟨·, true⟩), visit.inherited = false →
        visit.scope ∈ around := by
    intro visit member direct
    rcases List.mem_cons.mp member with rfl | further
    · exact start
    · obtain ⟨base, -, rfl⟩ := List.mem_map.mp further
      cases direct
  induction path with
  | root found outermost inherits => exact bare enclosed.start _
  | @inner id next scope bases visits found nested inherits _ ih =>
    have onward : Enclosed graph around next :=
      ⟨enclosed.closed id enclosed.start scope found next nested, enclosed.closed⟩
    intro visit member direct
    rcases List.mem_append.mp member with here | later
    · exact bare enclosed.start bases visit here direct
    · exact ih onward visit later direct

/-- The same question, asked in both graphs. It comes on the same side of each declaration that it
could meet. -/
structure Asks (loose : Bool) (numbering : Numbering) (one two : ScopeGraph)
    (around : List ScopeId) (first second : Reference) : Prop where
  inside : first.scope < one.scopes.length
  enclosed : Enclosed one around first.scope
  name : second.name = first.name
  scope : second.scope = numbering.scopes first.scope
  deferred : second.deferred = first.deferred
  late : loose → first.deferred
  order : ∀ id ∈ around, (loose → id ≠ root) →
    ∀ number ∈ one.declarationsOf id first.name,
      two.isBefore second.seq (numbering.declarations number) = one.isBefore first.seq number

theorem Mirrors.admissible (mirrors : Mirrors loose numbering one two)
    (asks : Asks loose numbering one two around first second) {visit : Visit}
    (inside : visit.scope < one.scopes.length)
    (near : visit.inherited = false → visit.scope ∈ around) (strict : loose → visit.scope ≠ root) :
    admissible two second (numbering.visit visit) =
      (admissible one first visit).map numbering.declarations := by
  obtain ⟨other, found, same⟩ := mirrors.scopes (List.getElem?_eq_getElem inside)
  have kind : other.kind = one.scopes[visit.scope].kind := congrArg Prod.fst same
  unfold Analysis.admissible
  rw [asks.name, Numbering.visit, mirrors.names inside strict, List.filter_map]
  congr 1
  refine List.filter_congr fun number member => ?_
  cases direct : visit.inherited with
  | true => simp [admits, direct]
  | false =>
    have before := asks.order visit.scope (near direct) strict number member
    unfold isBefore at before
    simp only [Function.comp, admits, found, List.getElem?_eq_getElem inside, Option.any_some, kind,
      asks.deferred, before, direct]

/-- What answers a question in the second graph, if a declaration answers it in the first one. -/
inductive Answers (loose : Bool) (numbering : Numbering) (one two : ScopeGraph) :
    Option DeclarationId → Option DeclarationId → Prop
  | missing : Answers loose numbering one two none none
  | same (number : DeclarationId) :
    Answers loose numbering one two (some number) (some (numbering.declarations number))
  | rooted (isLoose : loose) {name : String} {number other : DeclarationId}
      (first : number ∈ one.declarationsOf root name)
      (second : other ∈ two.declarationsOf root name) :
    Answers loose numbering one two (some number) (some other)

theorem Answers.isNone (answers : Answers loose numbering one two early late) :
    late.isNone = early.isNone := by
  cases answers <;> rfl

theorem answers_getLast {numbers : List DeclarationId} :
    Answers loose numbering one two numbers.getLast?
      (numbers.map numbering.declarations).getLast? := by
  rw [List.getLast?_map]
  cases numbers.getLast? with
  | none => exact .missing
  | some number => exact .same number

theorem admissible_root {scope : Scope} (found : graph.scopes[root]? = some scope)
    (isRoot : scope.kind = .root) (late : first.deferred) (inherited : Bool) :
    admissible graph first ⟨root, inherited⟩ = graph.declarationsOf root first.name := by
  unfold admissible
  refine List.filter_eq_self.mpr fun number _ => ?_
  simp [admits, found, isRoot, late]

section

variable (mirrors : Mirrors loose numbering one two)

include mirrors

theorem Mirrors.visited (asks : Asks loose numbering one two around first second) {visit : Visit}
    (inside : visit.scope < one.scopes.length)
    (near : visit.inherited = false → visit.scope ∈ around) :
    Answers loose numbering one two (Analysis.admissible one first visit).getLast?
      (Analysis.admissible two second (numbering.visit visit)).getLast? := by
  by_cases strict : loose → visit.scope ≠ root
  · rw [mirrors.admissible asks inside near strict]
    exact answers_getLast
  · obtain ⟨isLoose, isRoot⟩ := Classical.not_imp.mp strict
    have atRoot := Decidable.not_not.mp isRoot
    obtain ⟨scope, found, kind⟩ := mirrors.rooted
    obtain ⟨other, isOther, same⟩ := mirrors.scopes found
    rw [numbering.root] at isOther
    have otherKind : other.kind = .root := (congrArg Prod.fst same).trans kind
    have late := asks.late isLoose
    obtain ⟨place, inherited⟩ := visit
    obtain rfl : place = root := atRoot
    rw [Numbering.visit, numbering.root, admissible_root found kind late,
      admissible_root isOther otherKind (asks.deferred.trans late), asks.name]
    cases early : (one.declarationsOf root first.name).getLast? with
    | none =>
      rw [(mirrors.rootNames _).mpr (List.getLast?_eq_none_iff.mp early)]
      exact .missing
    | some number =>
      cases further : (two.declarationsOf root first.name).getLast? with
      | none =>
        rw [(mirrors.rootNames _).mp (List.getLast?_eq_none_iff.mp further)] at early
        cases early
      | some other =>
        exact .rooted isLoose (List.mem_of_getLast? early) (List.mem_of_getLast? further)

theorem Mirrors.supplied (asks : Asks loose numbering one two around first second)
    {path : List Visit} (inside : ∀ visit ∈ path, visit.scope < one.scopes.length)
    (near : ∀ visit ∈ path, visit.inherited = false → visit.scope ∈ around) :
    Answers loose numbering one two (Analysis.supplied one path first)
      (Analysis.supplied two (path.map numbering.visit) second) := by
  unfold Analysis.supplied
  rw [List.findSome?_map]
  induction path with
  | nil => exact .missing
  | cons visit path ih =>
    obtain ⟨here, further⟩ := List.forall_mem_cons.mp inside
    obtain ⟨own, rest⟩ := List.forall_mem_cons.mp near
    have answers := mirrors.visited asks here own
    rw [List.findSome?_cons, List.findSome?_cons, Function.comp]
    generalize (Analysis.admissible one first visit).getLast? = early at answers ⊢
    generalize (Analysis.admissible two second (numbering.visit visit)).getLast? = late
      at answers ⊢
    cases answers with
    | missing => exact ih further rest
    | same number => exact .same number
    | rooted isLoose early late => exact .rooted isLoose early late

theorem Mirrors.passesOpen {path : List Visit}
    (inside : ∀ visit ∈ path, visit.scope < one.scopes.length) :
    Analysis.passesOpen two (path.map numbering.visit) = Analysis.passesOpen one path := by
  unfold Analysis.passesOpen
  induction path with
  | nil => rfl
  | cons visit path ih =>
    obtain ⟨here, further⟩ := List.forall_mem_cons.mp inside
    have found := List.getElem?_eq_getElem here
    obtain ⟨other, isOther, same⟩ := mirrors.scopes found
    have isOpen : other.isOpen = one.scopes[visit.scope].isOpen := congrArg (·.2.2.2) same
    rw [List.map_cons, List.any_cons, List.any_cons, ih further, Numbering.visit, isOther, found,
      Option.any_some, Option.any_some, isOpen]

omit mirrors in
/-- Nothing more is asked of a graph in which names are looked up. -/
structure Settling (graph : ScopeGraph) : Prop where
  within : graph.InRange
  nested : graph.Nested
  filed : graph.Filed
  acyclic : graph.Acyclic

variable (settling : Settling one) (settled : Settling two)

include settling settled

theorem Mirrors.answer (asks : Asks loose numbering one two around first second) :
    Answers loose numbering one two (Analysis.answer one first) (Analysis.answer two second) := by
  unfold Analysis.answer
  rw [asks.scope, mirrors.visits settling.nested settling.acyclic settled.nested settled.acyclic
    asks.inside]
  exact mirrors.supplied asks (settling.within.visits asks.inside)
    (asks.enclosed.visits (path_visits settling.nested settling.acyclic asks.inside))

theorem Mirrors.isUndeclared (asks : Asks loose numbering one two around first second)
    (isCall : second.isCall = first.isCall) (known : List String) :
    Analysis.isUndeclared known two (two.visits second.scope) second =
      Analysis.isUndeclared known one (one.visits first.scope) first := by
  have answers := mirrors.answer settling settled asks
  have visits := mirrors.visits settling.nested settling.acyclic settled.nested settled.acyclic
    asks.inside
  have missing : (Analysis.answer two second).isNone = (Analysis.answer one first).isNone :=
    answers.isNone
  have opens : Analysis.passesOpen two (two.visits second.scope) =
      Analysis.passesOpen one (one.visits first.scope) := by
    rw [asks.scope, visits, mirrors.passesOpen (settling.within.visits asks.inside)]
  unfold Analysis.isUndeclared
  rw [opens, asks.name, isCall]
  congr 3

end

end Asking

section Linking

def Inheritance.question (inheritance : Inheritance) (name : String) : Reference :=
  ⟨name, inheritance.scope, inheritance.seq, inheritance.deferred, inheritance.base.span, false, true,
    false⟩

/-- The declaration of a name in the root scope, if possible one before a number. -/
def rootward (graph : ScopeGraph) (name : String) (seq : Nat) : Option DeclarationId :=
  ((graph.declarationsOf root name).filter (graph.isBefore seq)).getLast?.or
    (graph.declarationsOf root name).getLast?

def standsFor (graph : ScopeGraph) (inheritance : Inheritance) : Option DeclarationId :=
  (baseName? inheritance.base).bind fun name =>
    (if inheritance.base.hasLabel .reference then answer graph (inheritance.question name)
      else none).or (rootward graph name inheritance.seq)

def linkedTo (graph : ScopeGraph) (inheritance : Inheritance) : Option ScopeId :=
  (standsFor graph inheritance).bind fun number => graph.declarations[number]?.bind (·.tableScope)

def Resolved.linking (resolved : Resolved) (inheritance : Inheritance) : Resolved :=
  match linkedTo resolved.graph inheritance with
  | none => { resolved with
      graph := resolved.graph.updateScope inheritance.tableScope ({ · with isOpen := true })
      openBases := resolved.openBases ++ [baseName? inheritance.base] }
  | some target =>
    if inheritance.tableScope ∈
        resolved.graph.fallbackChain resolved.graph.chainBound [] (some target) then
      { resolved with diagnostics := resolved.diagnostics ++ [cyclicAt inheritance] }
    else { resolved with
      graph := resolved.graph.updateScope inheritance.tableScope
        ({ · with fallback := some target }) }

variable {graph : ScopeGraph} {inheritance : Inheritance}

theorem findRoot_eq (settling : Settling graph) (name : String) (seq : Nat) :
    graph.findRoot name seq = .ok (rootward graph name seq) := by
  have rooted := settling.within.rooted
  have found := List.getElem?_eq_getElem rooted
  have given : graph.scope root = .ok graph.scopes[root] := by rw [ScopeGraph.scope, found]
  rw [ScopeGraph.findRoot, ok_bind _ given]
  dsimp only
  rw [settling.filed.listed root _ found name, rootward, ← List.head?_filter, List.filter_reverse,
    List.head?_reverse]
  rfl

theorem lookup_eq (settling : Settling graph) (inside : inheritance.scope < graph.scopes.length)
    (name : String) : ∃ found, graph.lookup inheritance.scope name inheritance.seq
      inheritance.deferred = .ok found ∧
        found.declaration? = answer graph (inheritance.question name) := by
  obtain ⟨found, isFound, same, -⟩ := search_supplied (inheritance.question name) settling.filed false
    (settling.within.visits inside)
  exact ⟨found, isFound, same⟩

theorem resolveBase_eq (settling : Settling graph)
    (inside : inheritance.scope < graph.scopes.length) :
    resolveBase graph inheritance =
      .ok (baseName? inheritance.base, standsFor graph inheritance) := by
  have looked := lookup_eq settling inside
  have rooted := findRoot_eq settling
  have named {name : String} : (do return (some name, ← graph.findRoot name inheritance.seq)) =
      (.ok (some name, rootward graph name inheritance.seq) :
        Except GraphError (Option String × Option DeclarationId)) := by
    rw [rooted]
    rfl
  unfold resolveBase standsFor
  generalize inheritance.base = base
  split
  · next token _ =>
    obtain ⟨found, isFound, same⟩ := looked token.text
    rw [ok_bind _ isFound]
    change _ = Except.ok (some token.text, (answer graph (inheritance.question token.text)).or
      (rootward graph token.text inheritance.seq))
    rw [← same]
    cases found.declaration? with
    | some id => rfl
    | none => exact named
  · next token => exact named
  · next token => exact named
  · next token _ =>
    rw [baseName?]
    split
    · exact named
    · rfl
  · next isReference isRoot isMember isLiteral =>
    rw [baseName?]
    · rfl
    · exact isReference
    · exact isRoot
    · exact isMember
    · exact isLiteral

theorem standsFor_lt {number : DeclarationId} (stands : standsFor graph inheritance = some number) :
    number < graph.declarations.length := by
  obtain ⟨name, -, found⟩ := Option.bind_eq_some_iff.mp stands
  have listed {numbers : List DeclarationId} (sub : numbers ⊆ graph.declarationsOf root name)
      (last : numbers.getLast? = some number) : number < graph.declarations.length :=
    List.mem_range.mp (List.mem_of_mem_filter (sub (List.mem_of_getLast? last)))
  rcases Option.or_eq_some_iff.mp found with answered | ⟨-, rooted⟩
  · split at answered
    · exact supplied_lt answered
    · cases answered
  · rcases Option.or_eq_some_iff.mp rooted with early | ⟨-, last⟩
    · exact listed (List.filter_subset_self _) early
    · exact listed (List.Subset.refl _) last

theorem tableScope_eq {declared : Option DeclarationId}
    (inside : ∀ number ∈ declared, number < graph.declarations.length) :
    tableScope? graph declared =
      .ok (declared.bind fun number => graph.declarations[number]?.bind (·.tableScope)) := by
  cases declared with
  | none => rfl
  | some number =>
    have within := inside number rfl
    have found := List.getElem?_eq_getElem within
    have given : graph.declaration number = .ok graph.declarations[number] := by
      rw [ScopeGraph.declaration, found]
    rw [tableScope?, ok_bind _ given, Option.bind_some, found]
    rfl

theorem linkedTo_lt (settling : Settling graph) {target : ScopeId}
    (linked : linkedTo graph inheritance = some target) : target < graph.scopes.length := by
  obtain ⟨number, -, bound⟩ := Option.bind_eq_some_iff.mp linked
  obtain ⟨declaration, found, isTable⟩ := Option.bind_eq_some_iff.mp bound
  exact settling.within.declarations declaration (List.mem_of_getElem? found) target isTable

theorem chain_of_inherits {id : ScopeId} {bases : List ScopeId} (inherits : Inherits graph id bases) :
    graph.fallbackChain graph.chainBound [] (some id) = id :: bases :=
  inherits.fallbackChain (Nat.lt_succ_of_lt inherits.length_lt) (by simp)

theorem linkFallback_eq (settling : Settling graph) {id target : ScopeId}
    (inside : id < graph.scopes.length) (targetInside : target < graph.scopes.length) :
    graph.linkFallback id target =
      .ok (if id ∈ graph.fallbackChain graph.chainBound [] (some target) then (false, graph)
        else (true, graph.updateScope id ({ · with fallback := some target }))) := by
  obtain ⟨bases, inherits⟩ := settling.acyclic target targetInside
  obtain ⟨answer, answered⟩ := occursOn_ok id inherits.inside
  obtain ⟨scope, -, given⟩ := scope_ok inside
  have meaning := occursOn_eq answered
  rw [ScopeGraph.linkFallback, chain_of_inherits inherits, answered]
  cases answer with
  | true =>
    rw [if_pos (of_decide_eq_true meaning.symm)]
    rfl
  | false =>
    rw [if_neg (of_decide_eq_false meaning.symm)]
    simp only [given]
    rfl

variable {resolved : Resolved}

theorem resolveInheritance_eq (settling : Settling resolved.graph)
    (table : inheritance.tableScope < resolved.graph.scopes.length)
    (inside : inheritance.scope < resolved.graph.scopes.length) :
    resolveInheritance resolved inheritance = .ok (resolved.linking inheritance) := by
  have tables : tableScope? resolved.graph (standsFor resolved.graph inheritance) =
      .ok (linkedTo resolved.graph inheritance) := tableScope_eq fun _ stands => standsFor_lt stands
  unfold resolveInheritance Resolved.linking
  rw [ok_bind _ (resolveBase_eq settling inside)]
  dsimp only
  rw [ok_bind _ tables]
  cases linked : linkedTo resolved.graph inheritance with
  | none =>
    obtain ⟨scope, -, given⟩ := scope_ok table
    simp only [ScopeGraph.trySetOpen, given]
    rfl
  | some target =>
    dsimp only
    rw [ok_bind _ (linkFallback_eq settling table (linkedTo_lt settling linked))]
    split
    · rfl
    · rfl

variable {declarations : List Declaration}

theorem Linked.settling (linked : Linked declarations resolved) : Settling resolved.graph :=
  ⟨linked.within, linked.nested, linked.filed, linked.acyclic⟩

theorem foldlM_linking
    (linked : Linked declarations resolved) {inheritances : List Inheritance}
    (inside : ∀ inheritance ∈ inheritances,
      inheritance.tableScope < resolved.graph.scopes.length ∧
        inheritance.scope < resolved.graph.scopes.length) :
    inheritances.foldlM resolveInheritance resolved =
        .ok (inheritances.foldl Resolved.linking resolved) ∧
      Linked declarations (inheritances.foldl Resolved.linking resolved) ∧
        resolved.graph.scopes.length =
          (inheritances.foldl Resolved.linking resolved).graph.scopes.length := by
  induction inheritances generalizing resolved with
  | nil => exact ⟨rfl, linked, rfl⟩
  | cons inheritance inheritances ih =>
    obtain ⟨⟨table, scope⟩, others⟩ := List.forall_mem_cons.mp inside
    have step := resolveInheritance_eq linked.settling table scope
    obtain ⟨next, stepped, nextLinked, same⟩ := linked_inheritance linked table scope
    cases step.symm.trans stepped
    rw [List.foldlM_cons, ok_bind _ step, List.foldl_cons]
    obtain ⟨folded, lastLinked, still⟩ := ih nextLinked (same ▸ others)
    exact ⟨folded, lastLinked, same.trans still⟩

end Linking

section Mirroring

structure Appeals (numbering : Numbering) (one two : ScopeGraph) (around : List ScopeId)
    (first second : Inheritance) : Prop where
  inside : first.tableScope < one.scopes.length
  table : second.tableScope = numbering.scopes first.tableScope
  base : appeal second.base = appeal first.base
  rooted : root ∈ around
  asks : ∀ name, Asks false numbering one two around (first.question name) (second.question name)

variable {numbering : Numbering} {one two : ScopeGraph} {around : List ScopeId}
  {first second : Inheritance}

theorem Answers.eq_map (answers : Answers false numbering one two early late) :
    late = early.map numbering.declarations := by
  cases answers with
  | missing => rfl
  | same number => rfl
  | rooted isLoose => cases isLoose

section

variable (mirrors : Mirrors false numbering one two)

include mirrors

theorem Mirrors.rootward (appeals : Appeals numbering one two around first second)
    (rooted : root < one.scopes.length) (name : String) :
    Analysis.rootward two name second.seq =
      (Analysis.rootward one name first.seq).map numbering.declarations := by
  have names := mirrors.names rooted (fun isLoose => by cases isLoose) name
  rw [numbering.root] at names
  unfold Analysis.rootward
  rw [names, List.filter_map, List.getLast?_map, List.getLast?_map, Option.map_or]
  congr 3
  exact List.filter_congr fun number member => (appeals.asks name).order root appeals.rooted
    (fun isLoose => by cases isLoose) number member

variable (settling : Settling one) (settled : Settling two)

include settling settled

theorem Mirrors.standsFor (appeals : Appeals numbering one two around first second) :
    Analysis.standsFor two second = (Analysis.standsFor one first).map numbering.declarations := by
  have name : baseName? second.base = baseName? first.base := congrArg Appeal.name? appeals.base
  have lexical : second.base.hasLabel .reference = first.base.hasLabel .reference :=
    congrArg Appeal.lexical appeals.base
  unfold Analysis.standsFor
  rw [name, lexical, Option.map_bind]
  congr 1
  funext name
  have answered := (mirrors.answer settling settled (appeals.asks name)).eq_map
  rw [Function.comp, mirrors.rootward appeals settling.within.rooted, Option.map_or]
  congr 1
  split
  · exact answered
  · rfl

theorem Mirrors.linkedTo (appeals : Appeals numbering one two around first second) :
    Analysis.linkedTo two second = (Analysis.linkedTo one first).map numbering.scopes := by
  unfold Analysis.linkedTo
  rw [mirrors.standsFor settling settled appeals, Option.bind_map, Option.map_bind]
  cases stands : Analysis.standsFor one first with
  | none => rfl
  | some number =>
    have within := standsFor_lt stands
    have found := List.getElem?_eq_getElem within
    obtain ⟨other, isOther, same⟩ := mirrors.declarations found
    rw [Option.bind_some, Option.bind_some, Function.comp, Function.comp, isOther, found,
      Option.bind_some, Option.bind_some, same]

omit settled in
theorem Mirrors.mem_chain {id target : ScopeId} (inside : id < one.scopes.length)
    (targetInside : target < one.scopes.length) :
    numbering.scopes id ∈
        two.fallbackChain two.chainBound [] (some (numbering.scopes target)) ↔
      id ∈ one.fallbackChain one.chainBound [] (some target) := by
  obtain ⟨bases, inherits⟩ := settling.acyclic target targetInside
  rw [chain_of_inherits inherits, chain_of_inherits (mirrors.inherits inherits), ← List.map_cons,
    List.mem_map]
  constructor
  · rintro ⟨other, member, same⟩
    rwa [← mirrors.injective (inherits.inside other member) inside same]
  · exact fun member => ⟨id, member, rfl⟩

end

end Mirroring

section Folding

structure Keeps (before after : ScopeGraph) : Prop where
  declarations : after.declarations = before.declarations
  parents : after.scopes.map (·.parent) = before.scopes.map (·.parent)

theorem keeps_linking (resolved : Resolved) (inheritance : Inheritance) :
    Keeps resolved.graph (resolved.linking inheritance).graph := by
  unfold Resolved.linking
  split
  · exact ⟨rfl, map_modify fun _ => rfl⟩
  · split
    · exact ⟨rfl, rfl⟩
    · exact ⟨rfl, map_modify fun _ => rfl⟩

variable {loose : Bool} {numbering : Numbering} {one two after next : ScopeGraph}
  {around : List ScopeId}

theorem Keeps.length {before after : ScopeGraph} (keeps : Keeps before after) :
    after.scopes.length = before.scopes.length := by
  simpa using congrArg List.length keeps.parents

theorem Keeps.enclosed {before after : ScopeGraph} (keeps : Keeps before after) {id : ScopeId}
    (enclosed : Enclosed before around id) : Enclosed after around id := by
  refine ⟨enclosed.start, fun other member scope found next isNext => ?_⟩
  have parents := congrArg (fun listed => listed[other]?) keeps.parents
  simp only [List.getElem?_map, found, Option.map_some] at parents
  obtain ⟨earlier, isEarlier, same⟩ := Option.map_eq_some_iff.mp parents.symm
  exact enclosed.closed other member earlier isEarlier next (same ▸ isNext)

theorem Asks.keep {first second : Reference}
    (asks : Asks loose numbering one two around first second) (keeps : Keeps one after)
    (kept : Keeps two next) : Asks loose numbering after next around first second where
  inside := keeps.length ▸ asks.inside
  enclosed := keeps.enclosed asks.enclosed
  name := asks.name
  scope := asks.scope
  deferred := asks.deferred
  late := asks.late
  order id member strict number listed := by
    unfold declarationsOf at listed
    rw [keeps.declarations] at listed
    have before := asks.order id member strict number listed
    unfold isBefore at before ⊢
    rwa [keeps.declarations, kept.declarations]

theorem Appeals.keep {first second : Inheritance}
    (appeals : Appeals numbering one two around first second) (keeps : Keeps one after)
    (kept : Keeps two next) : Appeals numbering after next around first second where
  inside := keeps.length ▸ appeals.inside
  table := appeals.table
  base := appeals.base
  rooted := appeals.rooted
  asks name := (appeals.asks name).keep keeps kept

/-- Two runs know the same, and have reported the same since some time. -/
structure Alike (numbering : Numbering) (first second one two : Resolved) : Prop where
  mirrors : Mirrors false numbering one.graph two.graph
  reported : ∃ added, one.diagnostics = first.diagnostics ++ added ∧
    two.diagnostics = second.diagnostics ++ added

theorem alike_linking {one two : Resolved} (settling : Settling one.graph)
    (settled : Settling two.graph) (mirrors : Mirrors false numbering one.graph two.graph)
    {first second : Inheritance} (appeals : Appeals numbering one.graph two.graph around first second) :
    Alike numbering one two (one.linking first) (two.linking second) := by
  have target := mirrors.linkedTo settling settled appeals
  have cyclic : cyclicAt second = cyclicAt first := by
    unfold cyclicAt
    rw [show baseName? second.base = baseName? first.base from congrArg Appeal.name? appeals.base,
      show second.base.span = first.base.span from congrArg Appeal.span appeals.base]
  unfold Resolved.linking
  rw [target, appeals.table, cyclic]
  cases linked : linkedTo one.graph first with
  | none =>
    refine ⟨mirrors.updateScope appeals.inside (fun _ => rfl) fun {scope other} same => ?_,
      [], (List.append_nil _).symm, (List.append_nil _).symm⟩
    simp only [outline, Numbering.outline, Prod.mk.injEq] at same ⊢
    exact ⟨same.1, same.2.1, same.2.2.1, trivial⟩
  | some target =>
    have chain := mirrors.mem_chain settling appeals.inside (linkedTo_lt settling linked)
    simp only [Option.map_some, chain]
    split
    · exact ⟨mirrors, [cyclicAt first], rfl, rfl⟩
    · refine ⟨mirrors.updateScope appeals.inside (fun _ => rfl) fun {scope other} same => ?_,
        [], (List.append_nil _).symm, (List.append_nil _).symm⟩
      simp only [outline, Numbering.outline, Prod.mk.injEq] at same ⊢
      exact ⟨same.1, same.2.1, rfl, same.2.2.2⟩

theorem alike_foldl {firstDeclarations secondDeclarations : List Declaration} {one two : Resolved}
    (linked : Linked firstDeclarations one) (others : Linked secondDeclarations two)
    (mirrors : Mirrors false numbering one.graph two.graph) {firsts seconds : List Inheritance}
    (appeals : List.Forall₂ (fun first second =>
      ∃ around, Appeals numbering one.graph two.graph around first second) firsts seconds) :
    Alike numbering one two (firsts.foldl Resolved.linking one)
      (seconds.foldl Resolved.linking two) := by
  induction firsts generalizing seconds one two with
  | nil =>
    cases appeals
    exact ⟨mirrors, [], (List.append_nil _).symm, (List.append_nil _).symm⟩
  | cons first firsts ih =>
    cases appeals with
    | @cons _ second _ seconds here rest =>
      obtain ⟨around, here⟩ := here
      have asks := here.asks ""
      have step := resolveInheritance_eq linked.settling here.inside asks.inside
      have table : second.tableScope < two.graph.scopes.length :=
        here.table ▸ mirrors.inside here.inside
      have scope : second.scope < two.graph.scopes.length := by
        rw [show second.scope = numbering.scopes first.scope from asks.scope]
        exact mirrors.inside asks.inside
      have follow := resolveInheritance_eq others.settling table scope
      obtain ⟨_, stepped, nextLinked, -⟩ := linked_inheritance linked here.inside asks.inside
      obtain ⟨_, followed, nextOther, -⟩ := linked_inheritance others table scope
      cases step.symm.trans stepped
      cases follow.symm.trans followed
      obtain ⟨mirrored, added, isAdded, alsoAdded⟩ :=
        alike_linking linked.settling others.settling mirrors here
      obtain ⟨last, more, isMore, alsoMore⟩ := ih nextLinked nextOther mirrored
        (rest.imp fun _ _ ⟨around, appeals⟩ =>
          ⟨around, appeals.keep (keeps_linking one first) (keeps_linking two second)⟩)
      refine ⟨last, added ++ more, ?_, ?_⟩
      · rw [List.foldl_cons, isMore, isAdded, List.append_assoc]
      · rw [List.foldl_cons, alsoMore, alsoAdded, List.append_assoc]

theorem keeps_foldl (resolved : Resolved) (inheritances : List Inheritance) :
    Keeps resolved.graph (inheritances.foldl Resolved.linking resolved).graph := by
  induction inheritances generalizing resolved with
  | nil => exact ⟨rfl, rfl⟩
  | cons inheritance inheritances ih =>
    have first := keeps_linking resolved inheritance
    have rest := ih (resolved.linking inheritance)
    exact ⟨rest.declarations.trans first.declarations, rest.parents.trans first.parents⟩

end Folding

end Squirrel.Analysis
