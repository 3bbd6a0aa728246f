import Squirrel.Proofs.Analysis.Notes
import Squirrel.Proofs.Analysis.Resolved

/-! Walks over trees that are alike go in step: they collect the same names in the same scopes, at
places of tokens that are alike, and they report the same faults there. -/

namespace Squirrel.Analysis

/-- A relation of trees that a walk can follow. Entries of tables are alike one by one, and the
tokens of malformed nodes read the same. -/
structure Pairs (Like : Tree → Tree → Prop) : Prop extends Tracks Like where
  entries : ∀ {children others}, Like (.node .table children) (.node .table others) →
    List.Forall₂ Like (children.filter (·.isNode)) (others.filter (·.isNode))
  skipped : ∀ {children others}, Like (.node .error children) (.node .error others) →
    (Tree.tokensOf others).map (·.toLexeme) = (Tree.tokensOf children).map (·.toLexeme)
  shapedToo : ∀ {tree other}, Like tree other → other.isShaped

section Relations

variable (Like : Tree → Tree → Prop)

def PlaceLike (span other : Span) : Prop :=
  ∃ token another : Token, Like (.leaf token) (.leaf another) ∧ span = token.span ∧
    other = another.span

/-- The same declaration at another place. Only one that can be reported has to stand at a token
that is alike. -/
inductive DeclarationLike : Declaration → Declaration → Prop
  | mk (declaration : Declaration) (span : Span)
      (place : declaration.quiet = false → PlaceLike Like declaration.span span) :
    DeclarationLike declaration { declaration with span := span }

inductive ReferenceLike : Reference → Reference → Prop
  | mk (reference : Reference) {span : Span} (place : PlaceLike Like reference.span span) :
    ReferenceLike reference { reference with span := span }

inductive InheritanceLike : Inheritance → Inheritance → Prop
  | mk (inheritance : Inheritance) {base : Tree} (like : Like inheritance.base base) :
    InheritanceLike inheritance { inheritance with base := base }

/-- The same fault, at the places of two names or of two bases that are alike. -/
inductive DiagnosticLike : Diagnostic → Diagnostic → Prop
  | name (fault : NameFault) (severity : Severity) {span other : Span}
      (place : PlaceLike Like span other) :
    DiagnosticLike ⟨.semantic fault, severity, span⟩ ⟨.semantic fault, severity, other⟩
  | cycle (name : String) {base other : Tree} (like : Like base other) :
    DiagnosticLike ⟨.semantic (.cyclicInheritance name), .error, base.span⟩
      ⟨.semantic (.cyclicInheritance name), .error, other.span⟩

structure GraphLike (graph other : ScopeGraph) : Prop where
  scopes : other.scopes = graph.scopes
  declarations : List.Forall₂ (DeclarationLike Like) graph.declarations other.declarations

structure Parallel (state other : State) : Prop where
  graph : GraphLike Like state.graph other.graph
  scope : other.scope = state.scope
  seq : other.seq = state.seq
  functionDepth : other.functionDepth = state.functionDepth
  references : List.Forall₂ (ReferenceLike Like) state.references other.references
  inheritances : List.Forall₂ (InheritanceLike Like) state.inheritances other.inheritances
  diagnostics : List.Forall₂ (DiagnosticLike Like) state.diagnostics other.diagnostics

/-- Both walks come to an end with results that belong together, or both are cut by the nesting, or
both break down. -/
inductive Meets {α β : Type} (rel : α → β → Prop) :
    EStateM.Result Cut State α → EStateM.Result Cut State β → Prop
  | ok {value : α} {other : β} {after after' : State} (same : rel value other)
      (parallel : Parallel Like after after') : Meets rel (.ok value after) (.ok other after')
  | tooDeep {after after' : State} (parallel : Parallel Like after after') :
    Meets rel (.error .tooDeep after) (.error .tooDeep after')
  | breakdown (cause cause' : Breakdown) (after after' : State) :
    Meets rel (.error (.breakdown cause) after) (.error (.breakdown cause') after')

/-- Two walks that go in step from wherever they have collected the same. -/
def InStep {α β : Type} (rel : α → β → Prop) (walk : Walk α) (other : Walk β) : Prop :=
  ∀ state state' : State, Parallel Like state state' →
    Meets Like rel (walk state) (other state')

end Relations

variable {Like : Tree → Tree → Prop} {α β γ δ : Type} {rel : α → β → Prop}

variable {rest : γ → δ → Prop}

section Steps

theorem InStep.pure {value : α} {other : β} (same : rel value other) :
    InStep Like rel (pure value) (pure other) := fun _ _ parallel => .ok same parallel

theorem InStep.bind {walk : Walk α} {other : Walk β} {next : α → Walk γ} {next' : β → Walk δ}
    (first : InStep Like rel walk other)
    (second : ∀ value value', rel value value' → InStep Like rest (next value) (next' value')) :
    InStep Like rest (walk >>= next) (other >>= next') := by
  intro state state' parallel
  have met := first state state' parallel
  generalize ran : walk state = result at met
  generalize ran' : other state' = result' at met
  cases met with
  | ok same parallel =>
    rw [bind_run ran, bind_run ran']
    exact second _ _ same _ _ parallel
  | tooDeep parallel =>
    rw [bind_error ran, bind_error ran']
    exact .tooDeep parallel
  | breakdown =>
    rw [bind_error ran, bind_error ran']
    exact .breakdown ..

theorem InStep.next {walk other : Walk α} {next : α → Walk γ} {next' : α → Walk δ}
    (first : InStep Like Eq walk other)
    (second : ∀ value, InStep Like rest (next value) (next' value)) :
    InStep Like rest (walk >>= next) (other >>= next') :=
  first.bind fun value _ same => same ▸ second value

theorem inStep_get : InStep Like (Parallel Like) get get := fun _ _ parallel => .ok parallel parallel

theorem inStep_modify {update update' : State → State}
    (keeps : ∀ state state', Parallel Like state state' →
      Parallel Like (update state) (update' state')) :
    InStep Like Eq (modify update) (modify update') :=
  fun state state' parallel => .ok rfl (keeps state state' parallel)

theorem inStep_misshapen (label label' : Label) :
    InStep Like rel (misshapen label) (misshapen label') := fun _ _ _ => .breakdown ..

theorem inStep_demand {answer answer' : Except GraphError α} (same : answer' = answer) :
    InStep Like Eq (demand answer) (demand answer') := by
  subst same
  cases answer' with
  | ok value => exact .pure rfl
  | error error => exact fun _ _ _ => .breakdown ..

end Steps

section Graphs

variable {graph other : ScopeGraph}

variable (like : GraphLike Like graph other)

include like

theorem GraphLike.scope (id : ScopeId) : other.scope id = graph.scope id := by
  rw [ScopeGraph.scope, ScopeGraph.scope, like.scopes]

theorem GraphLike.length :
    other.declarations.length = graph.declarations.length := like.declarations.length_eq.symm

theorem GraphLike.addScope (kind : ScopeKind) (parent : Option ScopeId) :
    GraphLike Like (graph.addScope kind parent) (other.addScope kind parent) where
  scopes := by rw [ScopeGraph.addScope, ScopeGraph.addScope, like.scopes]
  declarations := like.declarations

theorem GraphLike.updateScope (id : ScopeId) (update : Scope → Scope) :
    GraphLike Like (graph.updateScope id update) (other.updateScope id update) where
  scopes := by rw [ScopeGraph.updateScope, ScopeGraph.updateScope, like.scopes]
  declarations := like.declarations

omit like in
theorem forall₂_modify {values : List α} {others : List β} {update : α → α} {update' : β → β}
    (like : List.Forall₂ rel values others)
    (keeps : ∀ {value other}, rel value other → rel (update value) (update' other)) (index : Nat) :
    List.Forall₂ rel (values.modify index update) (others.modify index update') := by
  induction like generalizing index with
  | nil => cases index <;> exact .nil
  | cons first rest ih =>
    cases index with
    | zero => exact .cons (keeps first) rest
    | succ index => exact .cons first (ih index)

theorem GraphLike.updateDeclaration (id : DeclarationId)
    {update : Declaration → Declaration}
    (keeps : ∀ {one another}, DeclarationLike Like one another →
      DeclarationLike Like (update one) (update another)) :
    GraphLike Like (graph.updateDeclaration id update) (other.updateDeclaration id update) where
  scopes := like.scopes
  declarations := forall₂_modify like.declarations keeps id

theorem GraphLike.declare (id : ScopeId) (name : String) (kind : DeclarationKind)
    {span span' : Span} (place : PlaceLike Like span span') (seq : Nat) :
    GraphLike Like (graph.declare id name kind span seq) (other.declare id name kind span' seq) where
  scopes := by
    simp only [ScopeGraph.declare, ScopeGraph.updateScope, like.scopes, like.length]
  declarations := List.rel_append like.declarations
    (.cons (.mk ⟨name, kind, span, id, seq, 0, 0, none, false⟩ span' fun _ => place) .nil)

omit like in
theorem forall₂_getElem? {values : List α} {others : List β} (like : List.Forall₂ rel values others)
    (index : Nat) : Option.Rel rel values[index]? others[index]? := by
  induction like generalizing index with
  | nil => exact .none
  | cons first rest ih =>
    cases index with
    | zero => exact .some first
    | succ index => simpa using ih index

theorem GraphLike.declaration (id : DeclarationId) :
    (∃ one another, graph.declaration id = .ok one ∧ other.declaration id = .ok another ∧
      DeclarationLike Like one another) ∨
    (graph.declaration id = .error (.noDeclaration id) ∧
      other.declaration id = .error (.noDeclaration id)) := by
  have same := forall₂_getElem? like.declarations id
  unfold ScopeGraph.declaration
  generalize graph.declarations[id]? = one? at same ⊢
  generalize other.declarations[id]? = another? at same ⊢
  cases same with
  | none => exact .inr ⟨rfl, rfl⟩
  | some same => exact .inl ⟨_, _, rfl, rfl, same⟩

end Graphs

section Primitives

theorem inStep_nextSeq : InStep Like Eq nextSeq nextSeq :=
  InStep.bind (inStep_modify fun _ _ parallel => { parallel with seq := congrArg (· + 1) parallel.seq })
    fun _ _ _ => inStep_get.bind fun _ _ parallel => .pure parallel.seq.symm

variable {span span' : Span}

theorem inStep_report (fault : NameFault) (severity : Severity) (place : PlaceLike Like span span')
    : InStep Like Eq (report fault severity span) (report fault severity span') :=
  inStep_modify fun _ _ parallel => { parallel with
    diagnostics := List.rel_append parallel.diagnostics (.cons (.name fault severity place) .nil) }

theorem inStep_inScope (kind : ScopeKind) {walk : ScopeId → Walk α} {other : ScopeId → Walk β}
    (inside : ∀ inner, InStep Like rel (walk inner) (other inner)) :
    InStep Like rel (inScope kind walk) (inScope kind other) := by
  refine inStep_get.bind fun before before' started => ?_
  refine inStep_get.bind fun state state' parallel => ?_
  rw [started.scope, parallel.graph.scopes]
  refine InStep.next (inStep_modify fun _ _ parallel => { parallel with
    graph := parallel.graph.addScope kind _, scope := rfl }) fun _ => ?_
  refine (inside _).bind fun value value' same => ?_
  exact InStep.next (inStep_modify fun _ _ parallel => { parallel with scope := rfl }) fun _ => .pure same

theorem inStep_deferring {walk other : Walk Unit} (inside : InStep Like Eq walk other) :
    InStep Like Eq (deferring walk) (deferring other) := by
  refine InStep.next (inStep_modify fun _ _ parallel => { parallel with
    functionDepth := congrArg (· + 1) parallel.functionDepth }) fun _ => ?_
  refine inside.next fun _ => inStep_modify fun _ _ parallel => { parallel with
    functionDepth := congrArg (· - 1) parallel.functionDepth }

theorem inStep_updateDeclaration (id : DeclarationId) {update : Declaration → Declaration}
    (keeps : ∀ {one another}, DeclarationLike Like one another →
      DeclarationLike Like (update one) (update another)) :
    InStep Like Eq (updateDeclaration id update) (updateDeclaration id update) := by
  refine inStep_get.bind fun state state' parallel => ?_
  have updates : InStep Like Eq
      (modify fun state => { state with graph := state.graph.updateDeclaration id update })
      (modify fun state => { state with graph := state.graph.updateDeclaration id update }) :=
    inStep_modify fun _ _ parallel =>
      { parallel with graph := parallel.graph.updateDeclaration id keeps }
  rcases parallel.graph.declaration id with ⟨_, _, here, there, -⟩ | ⟨here, there⟩
  · rw [here, there]
    exact updates
  · rw [here, there]
    exact fun _ _ _ => .breakdown ..

theorem quiet_like {one another : Declaration} (like : DeclarationLike Like one another) :
    DeclarationLike Like { one with quiet := true } { another with quiet := true } := by
  cases like with
  | mk span => exact .mk { one with quiet := true } span fun loud => nomatch loud

theorem table_like (table : Option ScopeId) {one another : Declaration}
    (like : DeclarationLike Like one another) :
    DeclarationLike Like { one with tableScope := table } { another with tableScope := table } := by
  cases like with
  | mk span place => exact .mk { one with tableScope := table } span place

theorem latest_like {graph other : ScopeGraph} (like : GraphLike Like graph other) (id : ScopeId)
    (name : String) : other.latest? id name = graph.latest? id name := by
  rw [ScopeGraph.latest?, ScopeGraph.latest?, like.scopes]

theorem inStep_bind (scope : ScopeId) (name : String) (kind : DeclarationKind)
    (place : PlaceLike Like span span') :
    InStep Like Eq (Analysis.bind scope name kind span) (Analysis.bind scope name kind span') := by
  refine inStep_nextSeq.next fun seq => inStep_get.bind fun state state' parallel => ?_
  have declared := parallel.graph.declare scope name kind place seq
  refine InStep.next (inStep_modify fun _ _ current => { current with graph := declared }) fun _ =>
    inStep_demand ?_
  rw [parallel.graph.scope, parallel.graph.length, latest_like parallel.graph]

theorem inStep_declareIn (scope : ScopeId) (name : String) (kind : DeclarationKind)
    (place : PlaceLike Like span span') :
    InStep Like Eq (declareIn scope name kind span) (declareIn scope name kind span') := by
  refine (inStep_bind scope name kind place).next fun ⟨id, previous?⟩ => ?_
  cases previous? with
  | none => exact .pure rfl
  | some previous =>
    refine inStep_get.bind fun state state' parallel => ?_
    refine (inStep_demand (parallel.graph.scope scope)).next fun found => ?_
    dsimp only
    split
    · refine (inStep_updateDeclaration previous quiet_like).next fun _ => ?_
      exact (inStep_report (.duplicate name) .error place).next fun _ => .pure rfl
    · exact .pure rfl

theorem inStep_refer {name other : Token} (place : PlaceLike Like name.span other.span)
    (same : other.text = name.text) (isCall isRead isWrite : Bool) :
    InStep Like Eq (refer name isCall isRead isWrite) (refer other isCall isRead isWrite) := by
  refine inStep_nextSeq.next fun seq => inStep_modify fun state state' parallel => { parallel with
    references := List.rel_append parallel.references (.cons ?_ .nil) }
  rw [same, parallel.scope, parallel.functionDepth]
  exact .mk ⟨name.text, state.scope, seq, 0 < state.functionDepth, name.span, isCall, isRead,
    isWrite⟩ place

theorem inStep_functionScope (isLocal : Bool) :
    InStep Like Eq (functionScope isLocal) (functionScope isLocal) := by
  refine inStep_get.bind fun state state' here => inStep_get.bind fun now now' parallel => ?_
  rw [here.scope]
  exact (inStep_demand (parallel.graph.scope state.scope)).next fun found => .pure rfl

theorem inStep_find (home : Home) : InStep Like Eq home.find home.find := by
  cases home with
  | here => exact inStep_get.bind fun state state' parallel => .pure parallel.scope.symm
  | root => exact .pure rfl
  | function isLocal => exact inStep_functionScope isLocal

end Primitives

section Recovering

variable {state : State} {scope : ScopeId} {token : Token} {kind : DeclarationKind}

/-- A name that malformed text still shows is declared, and nobody has to use it. -/
def recovered (state : State) (scope : ScopeId) (token : Token) (kind : DeclarationKind) : State :=
  { state with
    seq := state.seq + 1
    graph := {
      scopes := state.graph.scopes.modify scope fun inner =>
        { inner with names := addName token.text state.graph.declarations.length inner.names }
      declarations := state.graph.declarations ++
        [⟨token.text, kind, token.span, scope, state.seq + 1, 0, 0, none, true⟩] } }

theorem modify_last (values : List α) (value : α) (update : α → α) :
    (values ++ [value]).modify values.length update = values ++ [update value] := by
  induction values with
  | nil => rfl
  | cons first values ih => simpa using ih

theorem recover_run (inside : scope < state.graph.scopes.length) :
    recover scope token kind state = .ok () (recovered state scope token kind) := by
  rw [recover, bind_run (bind_declared inside token.text kind token.span)]
  refine (updateDeclaration_run (by simp [ScopeGraph.declare, ScopeGraph.updateScope]) _).trans ?_
  simp [recovered, ScopeGraph.declare, ScopeGraph.updateScope, ScopeGraph.updateDeclaration,
    modify_last]

theorem recover_breaks (outside : ¬ scope < state.graph.scopes.length) (token : Token)
    (kind : DeclarationKind) :
    ∃ cause after, recover scope token kind state = .error (.breakdown cause) after := by
  have missing : state.graph.scope scope = .error (.noScope scope) := by
    rw [ScopeGraph.scope, List.getElem?_eq_none (Nat.le_of_not_lt outside)]
  have bound : bind scope token.text kind token.span state =
      .error (.breakdown (.outOfRange (.noScope scope))) { state with
        seq := state.seq + 1
        graph := state.graph.declare scope token.text kind token.span (state.seq + 1) } := by
    change demand ((state.graph.scope scope).map fun _ => _) _ = _
    rw [missing]
    rfl
  exact ⟨_, _, bind_error bound⟩

theorem Parallel.recovered {state' : State} (parallel : Parallel Like state state') {other : Token}
    (same : other.toLexeme = token.toLexeme) :
    Parallel Like (recovered state scope token kind) (Analysis.recovered state' scope other kind) := by
  have text : other.text = token.text := congrArg Lexeme.text same
  refine { parallel with seq := congrArg (· + 1) parallel.seq, graph := ⟨?_, ?_⟩ }
  · simp only [Analysis.recovered, parallel.graph.scopes, parallel.graph.length, text]
  · simp only [Analysis.recovered, parallel.seq, text]
    exact List.rel_append parallel.graph.declarations (.cons (.mk _ _ fun loud => nomatch loud) .nil)

theorem inStep_recover (scope : ScopeId) (kind : DeclarationKind) {token other : Token}
    (same : other.toLexeme = token.toLexeme) :
    InStep Like Eq (recover scope token kind) (recover scope other kind) := by
  intro state state' parallel
  by_cases inside : scope < state.graph.scopes.length
  · rw [recover_run inside, recover_run (parallel.graph.scopes ▸ inside)]
    exact .ok rfl (parallel.recovered same)
  · obtain ⟨_, _, ran⟩ := recover_breaks inside token kind
    obtain ⟨_, _, ran'⟩ := recover_breaks (parallel.graph.scopes ▸ inside) other kind
    rw [ran, ran']
    exact .breakdown ..

theorem isKind_like (kinds : List Kind) {token? other? : Option Token}
    (same : other?.map (·.toLexeme) = token?.map (·.toLexeme)) :
    isKind kinds other? = isKind kinds token? := by
  cases token? <;> cases other? <;> simp_all [isKind]

theorem inStep_recoverNames {tokens others : List Token} {earlier earlier' before before' : Option Token}
    (same : others.map (·.toLexeme) = tokens.map (·.toLexeme))
    (sameEarlier : earlier'.map (·.toLexeme) = earlier.map (·.toLexeme))
    (sameBefore : before'.map (·.toLexeme) = before.map (·.toLexeme)) :
    InStep Like Eq (recoverNames earlier before tokens) (recoverNames earlier' before' others) := by
  induction tokens generalizing others earlier earlier' before before' with
  | nil =>
    rw [List.map_nil, List.map_eq_nil_iff] at same
    subst same
    exact .pure rfl
  | cons token tokens ih =>
    obtain ⟨other, others, rfl, first, rest⟩ := List.map_eq_cons_iff.mp same
    have after : others.head?.map (·.toLexeme) = tokens.head?.map (·.toLexeme) := by
      rw [← List.head?_map, ← List.head?_map, rest]
    have kind : other.kind = token.kind := congrArg Lexeme.kind first
    have sameToken : (some other).map (·.toLexeme) = (some token).map (·.toLexeme) :=
      congrArg some first
    have onward := ih rest sameBefore sameToken
    simp only [recoverNames, isKind_like _ sameBefore, isKind_like _ sameEarlier, isKind_like _ after,
      kind]
    split
    · split
      · refine inStep_get.bind fun state state' parallel => ?_
        rw [parallel.scope]
        exact (inStep_recover _ _ first).next fun _ => onward
      · split
        · refine (inStep_functionScope _).next fun scope => ?_
          exact (inStep_recover scope _ first).next fun _ => onward
        · split
          · exact (inStep_recover _ _ first).next fun _ => onward
          · exact onward
    · exact onward

end Recovering

section Acts

def Strides (Like : Tree → Tree → Prop) (walk : Visitor) : Prop :=
  ∀ tree other, Like tree other → InStep Like Eq (walk tree) (walk other)

variable {walk : Visitor}

theorem inStep_walkOne (strides : Strides Like walk) {tree other : Tree} (like : Like tree other) :
    InStep Like Eq (walkOne walk tree) (walkOne walk other) :=
  (strides tree other like).next fun _ => .pure rfl

theorem inStep_tableOf (strides : Strides Like walk) {value? other? : Option Tree}
    (like : Option.Rel Like value? other?) :
    InStep Like Eq (tableOf walk value?) (tableOf walk other?) := by
  cases like with
  | none => exact .pure rfl
  | some like => exact strides _ _ like

mutual

theorem inStep_act (tracks : Tracks Like) (strides : Strides Like walk) : (act : Act) →
    ∀ {another}, ActLike Like act another →
    InStep Like Eq (act.play walk) (another.play walk)
  | .walk tree, _, .walk like => inStep_walkOne strides like
  | .refer .., _, .refer named isCall isRead isWrite =>
    inStep_refer ⟨_, _, named, rfl, rfl⟩ (tracks.text named) isCall isRead isWrite
  | .declare .., _, .declare home named kind => by
    rw [Act.play, Act.play, tracks.text named]
    refine (inStep_find home).next fun scope => ?_
    exact (inStep_declareIn scope _ kind ⟨_, _, named, rfl, rfl⟩).next fun _ => .pure rfl
  | .excuse _, _, .excuse named => by
    rw [Act.play, Act.play, declare, declare, tracks.text named]
    refine InStep.next (inStep_get.bind fun state state' parallel => ?_) fun id =>
      inStep_updateDeclaration id quiet_like
    rw [parallel.scope]
    exact inStep_declareIn _ _ _ ⟨_, _, named, rfl, rfl⟩
  | .bind .., _, .bind home named kind like => by
    rw [Act.play, Act.play, tracks.text named]
    refine (inStep_tableOf strides like).next fun table => (inStep_find home).next fun scope => ?_
    refine (inStep_declareIn scope _ kind ⟨_, _, named, rfl, rfl⟩).next fun id => ?_
    exact inStep_updateDeclaration id (table_like table)
  | .recover _, _, like => nomatch like
  | .within enclosure later acts, _, .within _ _ like => by
    rw [Act.play, Act.play]
    refine inStep_inScope enclosure.kind fun _ => ?_
    have inside := inStep_acts tracks strides acts like
    cases later with
    | false => exact inside
    | true => exact inStep_deferring inside

theorem inStep_acts (tracks : Tracks Like) (strides : Strides Like walk) : (acts : List Act) →
    ∀ {others}, ActsLike Like acts others →
    InStep Like Eq (playAll walk acts) (playAll walk others)
  | [], _, .nil => .pure rfl
  | act :: acts, _, .cons first rest =>
    (inStep_act tracks strides act first).next fun _ => inStep_acts tracks strides acts rest

end

def EntryLike (Like : Tree → Tree → Prop) (one another : Tree × Option DeclarationId) : Prop :=
  Like one.1 another.1 ∧ another.2 = one.2

variable {entries others : List Tree}

theorem inStep_declareSlots (tracks : Tracks Like) (tableScope : ScopeId)
    (like : List.Forall₂ Like entries others) :
    InStep Like (List.Forall₂ (EntryLike Like)) (declareSlots tableScope entries)
      (declareSlots tableScope others) := by
  induction like with
  | nil => exact .pure .nil
  | @cons entry other entries others first _ ih =>
    have onward (slot : Option DeclarationId) : InStep Like (List.Forall₂ (EntryLike Like))
        (do return (entry, slot) :: (← declareSlots tableScope entries))
        (do return (other, slot) :: (← declareSlots tableScope others)) :=
      ih.bind fun listed listed' same => .pure (.cons ⟨first, rfl⟩ same)
    have slots := slotName_like tracks first
    unfold declareSlots
    generalize slotName? entry = slot at slots ⊢
    generalize slotName? other = slot' at slots ⊢
    cases slots with
    | none => exact onward none
    | @some one another named =>
      obtain ⟨name, span⟩ := one
      obtain ⟨_, span'⟩ := another
      obtain ⟨rfl, key, key', like, rfl, rfl⟩ := named
      refine InStep.next ?_ onward
      rw [map_eq_pure_bind, map_eq_pure_bind]
      exact (inStep_declareIn tableScope _ _ ⟨key, key', like, rfl, rfl⟩).next fun id => .pure rfl

theorem inStep_filling (tracks : Tracks Like) (strides : Strides Like walk) {one another : Filling} (like : FillingLike Like one another)
    (slot : Option DeclarationId) :
    InStep Like Eq (one.play walk slot) (another.play walk slot) := by
  cases like with
  | acts like => exact inStep_acts tracks strides _ like
  | value like =>
    refine (strides _ _ like).next fun table => ?_
    cases slot with
    | some id => exact inStep_updateDeclaration id (table_like table)
    | none => exact inStep_misshapen _ _
  | fails => exact (inStep_misshapen .table .table).next fun _ => .pure rfl

theorem inStep_fillAll (tracks : Tracks Like) (strides : Strides Like walk)
    {entries others : List (Tree × Option DeclarationId)}
    (like : List.Forall₂ (EntryLike Like) entries others) :
    InStep Like Eq (fillAll walk entries) (fillAll walk others) := by
  induction like with
  | nil => exact .pure rfl
  | @cons one another _ _ first _ ih =>
    obtain ⟨entry, slot⟩ := one
    obtain ⟨other, _⟩ := another
    obtain ⟨like, rfl⟩ := first
    exact (inStep_filling tracks strides (filling_like tracks like) _).next fun _ => ih

theorem inStep_table (tracks : Tracks Like) (strides : Strides Like walk)
    (like : List.Forall₂ Like entries others) :
    InStep Like Eq ((Ending.table entries).play walk) ((Ending.table others).play walk) := by
  rw [Ending.play, Ending.play]
  refine inStep_inScope .table fun inner => ?_
  refine (inStep_declareSlots tracks inner like).bind fun listed listed' same => ?_
  exact (inStep_fillAll tracks strides same).next fun _ => .pure rfl

theorem inStep_ending (strides : Strides Like walk) {one another : Ending}
    (like : EndingLike Like one another) : InStep Like Eq (one.play walk) (another.play walk) := by
  cases like with
  | nothing => exact .pure rfl
  | value like => exact strides _ _ like
  | @inherit base body otherBase otherBody based like =>
    refine (strides _ _ like).next fun table => ?_
    cases table with
    | none => exact inStep_misshapen _ _
    | some inner =>
      refine inStep_nextSeq.next fun seq => InStep.next (inStep_modify fun state state' parallel =>
        { parallel with
          inheritances := List.rel_append parallel.inheritances (.cons ?_ .nil) }) fun _ => .pure rfl
      rw [parallel.scope, parallel.functionDepth]
      exact .mk ⟨inner, base, state.scope, seq, 0 < state.functionDepth⟩ based

theorem inStep_script (tracks : Tracks Like) (strides : Strides Like walk) {one another : Script}
    (like : ScriptLike Like one another) : InStep Like Eq (one.play walk) (another.play walk) :=
  (inStep_acts tracks strides _ like.acts).next fun _ => inStep_ending strides like.ending

end Acts

theorem strides_walk (pairs : Pairs Like) (levels : Nat) : Strides Like (walk levels) := by
  have tracks := pairs.toTracks
  induction levels with
  | zero =>
    intro tree other like
    rcases tracks.alike like with ⟨_, _, rfl, rfl, -⟩ | ⟨_, _, _, rfl, rfl⟩
    · exact .pure rfl
    · exact fun _ _ parallel => .tooDeep parallel
  | succ levels ih =>
    intro tree other like
    rcases tracks.alike like with ⟨_, _, rfl, rfl, -⟩ | ⟨label, children, others, rfl, rfl⟩
    · exact .pure rfl
    · rw [walk_node, walk_node, if_pos (Tree.admits_of_isShaped (tracks.shaped like)),
        if_pos (Tree.admits_of_isShaped (pairs.shapedToo like))]
      by_cases isTable : label = .table
      · subst isTable
        exact (InStep.pure rfl).next fun _ => inStep_table tracks ih (pairs.entries like)
      by_cases isError : label = .error
      · subst isError
        have recovers : InStep Like Eq (recoverNames none none (Tree.tokensOf children))
            (recoverNames none none (Tree.tokensOf others)) :=
          inStep_recoverNames (pairs.skipped like) rfl rfl
        exact (recovers.next fun _ => .pure rfl).next fun _ => .pure rfl
      · exact inStep_script tracks ih (script_like tracks like isTable isError)

section Lookup

variable {graph other : ScopeGraph}

variable (like : GraphLike Like graph other)

include like

theorem GraphLike.isBefore : other.isBefore = graph.isBefore := by
  funext seq id
  have same := forall₂_getElem? like.declarations id
  unfold ScopeGraph.isBefore
  generalize graph.declarations[id]? = one? at same ⊢
  generalize other.declarations[id]? = another? at same ⊢
  cases same with
  | none => rfl
  | some like => cases like; rfl

theorem GraphLike.isVisible (scope : Scope) (seq : Nat) (deferred : Bool) :
    other.isVisible scope seq deferred = graph.isVisible scope seq deferred := by
  funext id
  rw [ScopeGraph.isVisible, ScopeGraph.isVisible, like.isBefore]

omit like in
theorem fallbackChain_like (scopes : other.scopes = graph.scopes) (fuel : Nat)
    (passed : List ScopeId) (id? : Option ScopeId) :
    other.fallbackChain fuel passed id? = graph.fallbackChain fuel passed id? := by
  fun_induction ScopeGraph.fallbackChain graph fuel passed id? with
  | case1 | case2 => rfl
  | case3 fuel passed id seen => rw [ScopeGraph.fallbackChain, if_pos seen]
  | case4 fuel passed id fresh ih => rw [ScopeGraph.fallbackChain, if_neg fresh, scopes, ih]

omit like in
theorem parentChain_like (scopes : other.scopes = graph.scopes) (fuel : Nat)
    (id? : Option ScopeId) : other.parentChain fuel id? = graph.parentChain fuel id? := by
  fun_induction ScopeGraph.parentChain graph fuel id? with
  | case1 | case2 => rfl
  | case3 fuel id ih => rw [ScopeGraph.parentChain, scopes, ih]

omit like in
theorem visits_like (scopes : other.scopes = graph.scopes) (id : ScopeId) :
    other.visits id = graph.visits id := by
  simp only [ScopeGraph.visits, ScopeGraph.inheritedVisits, ScopeGraph.chainBound,
    parentChain_like scopes, fallbackChain_like scopes, scopes]

theorem GraphLike.lookup (id : ScopeId) (name : String) (seq : Nat) (deferred : Bool) :
    other.lookup id name seq deferred = graph.lookup id name seq deferred := by
  rw [ScopeGraph.lookup, ScopeGraph.lookup, visits_like like.scopes]
  generalize graph.visits id = visits
  generalize false = passed
  induction visits generalizing passed with
  | nil => rfl
  | cons visit visits ih =>
    simp only [ScopeGraph.search, like.scope, ih, ScopeGraph.declarationAt?, ScopeGraph.visible?,
      like.isVisible]

theorem GraphLike.findRoot (name : String) (seq : Nat) :
    other.findRoot name seq = graph.findRoot name seq := by
  rw [ScopeGraph.findRoot, ScopeGraph.findRoot, like.scope, like.isBefore]

theorem GraphLike.occursOn (id : ScopeId) (chain : List ScopeId) :
    other.occursOn id chain = graph.occursOn id chain := by
  induction chain with
  | nil => rfl
  | cons next chain ih => rw [ScopeGraph.occursOn, ScopeGraph.occursOn, like.scope, ih]

theorem GraphLike.tableScope (declared : Option DeclarationId) :
    tableScope? other declared = tableScope? graph declared := by
  cases declared with
  | none => rfl
  | some id =>
    rw [tableScope?, tableScope?]
    rcases like.declaration id with ⟨_, _, here, there, same⟩ | ⟨here, there⟩
    · rw [here, there]
      cases same
      rfl
    · rw [here, there]

end Lookup

section Resolving

/-- Two answers that belong together, or none from either side. -/
inductive Agree {ε α β : Type} (rel : α → β → Prop) : Except ε α → Except ε β → Prop
  | ok {value : α} {other : β} (same : rel value other) : Agree rel (.ok value) (.ok other)
  | error (cause cause' : ε) : Agree rel (.error cause) (.error cause')

theorem Agree.bind {ε : Type} {answer : Except ε α} {other : Except ε β} {next : α → Except ε γ}
    {next' : β → Except ε δ} (first : Agree rel answer other)
    (second : ∀ value value', rel value value' → Agree rest (next value) (next' value')) :
    Agree rest (answer >>= next) (other >>= next') := by
  cases first with
  | ok same => exact second _ _ same
  | error cause cause' => exact .error cause cause'

theorem Agree.refl {ε : Type} (answer : Except ε α) : Agree Eq answer answer := by
  cases answer with
  | ok value => exact .ok rfl
  | error cause => exact .error cause cause

theorem Agree.next {ε : Type} {answer other : Except ε α} {next : α → Except ε γ}
    {next' : α → Except ε δ} (same : other = answer)
    (second : ∀ value, Agree rest (next value) (next' value)) :
    Agree rest (answer >>= next) (other >>= next') := by
  subst same
  exact (Agree.refl other).bind fun value _ same => same ▸ second value

theorem Agree.mapError {ε ε' : Type} {answer : Except ε α} {other : Except ε β}
    (same : Agree rel answer other) (translate : ε → ε') :
    Agree rel (answer.mapError translate) (other.mapError translate) := by
  cases same with
  | ok same => exact .ok same
  | error cause cause' => exact .error _ _

theorem Agree.foldlM {ε σ τ : Type} {states : σ → τ → Prop} {step : σ → α → Except ε σ}
    {step' : τ → β → Except ε τ} {values : List α} {others : List β}
    (like : List.Forall₂ rel values others)
    (steps : ∀ {state state' value other}, states state state' → rel value other →
      Agree states (step state value) (step' state' other)) {state : σ} {state' : τ}
    (same : states state state') :
    Agree states (values.foldlM step state) (others.foldlM step' state') := by
  induction like generalizing state state' with
  | nil => exact .ok same
  | cons first _ ih =>
    rw [List.foldlM_cons, List.foldlM_cons]
    exact (steps same first).bind fun _ _ same => ih same

structure ResolvedLike (Like : Tree → Tree → Prop) (one another : Resolved) : Prop where
  graph : GraphLike Like one.graph another.graph
  diagnostics : List.Forall₂ (DiagnosticLike Like) one.diagnostics another.diagnostics
  openBases : another.openBases = one.openBases

variable {graph other : ScopeGraph} {one another : Resolved}

variable {inheritance inheritance' : Inheritance}

theorem resolveBase_like (tracks : Tracks Like) (graphs : GraphLike Like graph other)
    (like : InheritanceLike Like inheritance inheritance') :
    resolveBase other inheritance' = resolveBase graph inheritance := by
  obtain ⟨like⟩ := like
  obtain ⟨tableScope, base, scope, seq, deferred⟩ := inheritance
  rcases tracks.name_or like with ⟨name, _, rfl, rfl, named⟩ | ⟨noName, -⟩
  · simp only [resolveBase, tracks.text named, graphs.lookup, graphs.findRoot]
  rcases tracks.root_or like with ⟨_, name, _, _, rfl, rfl, named⟩ | ⟨noRoot, -⟩
  · simp only [resolveBase, tracks.text named, graphs.findRoot]
  cases base with
  | leaf token =>
    obtain ⟨_, rfl, -⟩ := tracks.leaf like
    rfl
  | node label children =>
    obtain ⟨others, rfl, alike, -⟩ := tracks.node like
    cases label
    case reference => cases noName
    case rootReference => cases noRoot
    case member =>
      rcases alike rfl with _ | ⟨_, _ | ⟨_, _ | ⟨last, _ | ⟨_, _⟩⟩⟩⟩
      case cons.cons.cons.nil =>
        rcases tracks.alike last with ⟨_, _, rfl, rfl, -⟩ | ⟨_, _, _, rfl, rfl⟩
        · simp only [resolveBase, tracks.text last, graphs.findRoot]
        · rfl
      all_goals simp only [resolveBase]
    case literal =>
      rcases alike rfl with _ | ⟨first, _⟩
      · rfl
      · rcases tracks.alike first with ⟨_, _, rfl, rfl, -⟩ | ⟨_, _, _, rfl, rfl⟩
        · simp only [resolveBase, tracks.text first, tracks.kind first, graphs.findRoot]
        · rfl
    all_goals rfl

theorem GraphLike.linkFallback (like : GraphLike Like graph other) (id target : ScopeId) :
    Agree (fun linked linked' => linked'.1 = linked.1 ∧ GraphLike Like linked.2 linked'.2)
      (graph.linkFallback id target) (other.linkFallback id target) := by
  have chain : other.fallbackChain other.chainBound [] (some target) =
      graph.fallbackChain graph.chainBound [] (some target) := by
    rw [fallbackChain_like like.scopes, ScopeGraph.chainBound, like.scopes, ScopeGraph.chainBound]
  refine .next (by rw [chain, like.occursOn]) fun isOn => ?_
  cases isOn with
  | true => exact .ok ⟨rfl, like⟩
  | false => exact .next (like.scope id) fun _ => .ok ⟨rfl, like.updateScope id _⟩

theorem resolveInheritance_like (tracks : Tracks Like) (like : ResolvedLike Like one another)
    (same : InheritanceLike Like inheritance inheritance') :
    Agree (ResolvedLike Like) (resolveInheritance one inheritance)
      (resolveInheritance another inheritance') := by
  refine .next (resolveBase_like tracks like.graph same) fun ⟨name, declared⟩ => ?_
  refine .next (like.graph.tableScope declared) fun table => ?_
  obtain ⟨based⟩ := same
  cases table with
  | none =>
    refine .bind (?_ : Agree (GraphLike Like) _ _) fun _ _ graphs => .ok
      { like with graph := graphs, openBases := congrArg (· ++ [name]) like.openBases }
    refine .next (like.graph.scope _) fun scope => .ok (like.graph.updateScope _ _)
  | some target =>
    refine (like.graph.linkFallback _ target).bind fun (linked, graph) (linked', graph') same => ?_
    obtain ⟨rfl, graphs⟩ := same
    cases linked' with
    | true => exact .ok { like with graph := graphs }
    | false =>
      exact .ok { like with
        diagnostics := List.rel_append like.diagnostics (.cons (.cycle _ based) .nil) }

theorem count_like (reference : Reference) {one another : Declaration}
    (like : DeclarationLike Like one another) :
    DeclarationLike Like
      { one with
        reads := one.reads + if reference.isRead then 1 else 0
        writes := one.writes + if reference.isWrite then 1 else 0 }
      { another with
        reads := another.reads + if reference.isRead then 1 else 0
        writes := another.writes + if reference.isWrite then 1 else 0 } := by
  obtain ⟨span, place⟩ := like
  exact .mk { one with
    reads := one.reads + if reference.isRead then 1 else 0
    writes := one.writes + if reference.isWrite then 1 else 0 } span place

theorem resolveReference_like (known : List String) (like : ResolvedLike Like one another)
    {reference reference' : Reference} (same : ReferenceLike Like reference reference') :
    Agree (ResolvedLike Like) (resolveReference known one reference)
      (resolveReference known another reference') := by
  obtain ⟨place⟩ := same
  refine .next (like.graph.lookup _ _ _ _) fun found => ?_
  cases found.declaration? with
  | some id =>
    dsimp only
    rcases like.graph.declaration id with ⟨_, _, here, there, -⟩ | ⟨here, there⟩
    · rw [here, there]
      exact .ok { like with graph := like.graph.updateDeclaration id (count_like reference) }
    · rw [here, there]
      exact .error _ _
  | none =>
    dsimp only
    split
    · exact .ok like
    · split
      · exact .ok like
      · exact .ok { like with
          diagnostics := List.rel_append like.diagnostics (.cons (.name _ _ place) .nil) }

theorem unusedDiagnostics_like (like : GraphLike Like graph other) :
    List.Forall₂ (DiagnosticLike Like) (unusedDiagnostics graph) (unusedDiagnostics other) := by
  obtain ⟨-, declarations⟩ := like
  unfold unusedDiagnostics
  generalize graph.declarations = own at declarations ⊢
  generalize other.declarations = others at declarations ⊢
  induction declarations with
  | nil => exact .nil
  | @cons one _ _ _ first _ ih =>
    obtain ⟨span, place⟩ := first
    rw [List.filterMap_cons, List.filterMap_cons]
    have same : unusedSeverity? { one with span := span } = unusedSeverity? one := rfl
    rw [same]
    cases found : unusedSeverity? one with
    | none => exact ih
    | some severity =>
      have loud : one.quiet = false := by
        by_contra quiet
        simp [unusedSeverity?, quiet] at found
      exact .cons (.name _ _ (place loud)) ih

end Resolving

theorem parallel_initial : Parallel Like .initial .initial where
  graph := ⟨rfl, .nil⟩
  scope := rfl
  seq := rfl
  functionDepth := rfl
  references := .nil
  inheritances := .nil
  diagnostics := .nil

theorem resolve_like (tracks : Tracks Like) (known : List String) {state state' : State}
    (parallel : Parallel Like state state') :
    Agree (ResolvedLike Like) (resolve? known state) (resolve? known state') := by
  have started : ResolvedLike Like ⟨state.graph, state.diagnostics, []⟩
      ⟨state'.graph, state'.diagnostics, []⟩ := ⟨parallel.graph, parallel.diagnostics, rfl⟩
  refine (Agree.foldlM parallel.inheritances
    (fun like same => resolveInheritance_like tracks like same) started).bind fun _ _ linked => ?_
  exact .foldlM parallel.references (fun like same => resolveReference_like known like same) linked

theorem diagnostics_like [NestingLimit] (pairs : Pairs Like) (known : List String)
    {tree other : Tree}
    (like : Like tree other) :
    List.Forall₂ (DiagnosticLike Like) (analyzeTree known tree).diagnostics
      (analyzeTree known other).diagnostics := by
  have met := strides_walk pairs nestingLimit tree other like _ _ parallel_initial
  have settled {state state' : State} (parallel : Parallel Like state state') :=
    (resolve_like pairs.toTracks known parallel).mapError Breakdown.outOfRange
  have answers : Agree (fun one another : Analysis =>
      List.Forall₂ (DiagnosticLike Like) one.diagnostics another.diagnostics)
      (analyzeTree? known tree) (analyzeTree? known other) := by
    unfold analyzeTree? walkTree?
    generalize walk nestingLimit tree .initial = result at met ⊢
    generalize walk nestingLimit other .initial = result' at met ⊢
    cases met with
    | ok _ parallel | tooDeep parallel =>
      exact (settled parallel).bind fun _ _ like =>
        .ok (List.rel_append like.diagnostics (unusedDiagnostics_like like.graph))
    | breakdown => exact .error _ _
  unfold analyzeTree
  generalize analyzeTree? known tree = answer at answers ⊢
  generalize analyzeTree? known other = answer' at answers ⊢
  cases answers with
  | ok same => exact same
  | error => exact .nil

end Squirrel.Analysis
