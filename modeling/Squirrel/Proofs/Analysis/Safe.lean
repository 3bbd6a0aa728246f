import Squirrel.Analysis.Resolve
import Squirrel.Proofs.Analysis.Timing
import Squirrel.Proofs.Analysis.Trace

/-! A walk goes step by step, and over a tree that is well made it never breaks down. -/

namespace Squirrel

namespace Analysis

def State.isLate (state : State) : Bool := decide (0 < state.functionDepth)

def Cites (marks : List (Token × Bool)) (reference : Reference) : Prop :=
  ∃ token, (token, reference.deferred) ∈ marks ∧ reference.name = token.text ∧
    reference.span = token.span

/-- What a walk leaves behind: it ends where it started, it cites names that are expected, if it is
known what to expect, and only new tables inherit. -/
structure Leads (marks : Option (List (Token × Bool))) (before after : State) : Prop where
  run : Run before after
  scope : after.scope = before.scope
  depth : after.functionDepth = before.functionDepth
  references : ∀ reference ∈ after.references,
    reference ∈ before.references ∨ ∀ own ∈ marks, Cites own reference
  inheritances : ∀ inheritance ∈ after.inheritances, inheritance ∈ before.inheritances ∨
    before.graph.scopes.length ≤ inheritance.tableScope

/-- A walk from `state` ends with a result of which `post` holds then, or where the nesting gets too
deep. It never breaks down if it is known what to expect. -/
def Safely {α : Type} (marks : Option (List (Token × Bool))) (state : State) (walk : Walk α)
    (post : α → State → Prop) : Prop :=
  state.InRange →
    match walk state with
    | .ok value after => Leads marks state after ∧ post value after
    | .error .tooDeep after => Run state after
    | .error (.breakdown _) _ => marks = none

def Whatever {α : Type} (_ : α) (_ : State) : Prop := True

def GivesScope (value : Option ScopeId) (state : State) : Prop :=
  ∀ id ∈ value, state.graph.IsTable id

def GivesDeclaration (id : DeclarationId) (state : State) : Prop :=
  id < state.graph.declarations.length

variable {α β : Type} {marks : Option (List (Token × Bool))} {late : Bool} {state before after : State}
  {post : α → State → Prop}

theorem Leads.of_step (step : Step before after) (scope : after.scope = before.scope)
    (depth : after.functionDepth = before.functionDepth)
    (references : after.references = before.references)
    (inheritances : after.inheritances = before.inheritances) : Leads marks before after :=
  ⟨.single step, scope, depth, fun _ member => .inl (references ▸ member),
    fun _ member => .inl (inheritances ▸ member)⟩

theorem Leads.refl : Leads marks state state := ⟨.refl, rfl, rfl, fun _ => .inl, fun _ => .inl⟩

theorem Leads.trans {first second third : State} (one : Leads marks first second)
    (two : Leads marks second third) : Leads marks first third where
  run := one.run.trans two.run
  scope := two.scope.trans one.scope
  depth := two.depth.trans one.depth
  references reference member :=
    (two.references reference member).elim (one.references reference) .inr
  inheritances inheritance member :=
    (two.inheritances inheritance member).elim (one.inheritances inheritance) fun new =>
      .inr (Nat.le_trans one.run.grows.scopes new)

theorem Leads.isLate (leads : Leads marks before after) (now : before.isLate = late) :
    after.isLate = late := by
  rw [← now, State.isLate, State.isLate, leads.depth]

theorem GivesScope.mono {value : Option ScopeId} (given : GivesScope value before)
    (run : Run before after) : GivesScope value after :=
  fun id isValue => run.isTable (given id isValue)

variable {id : DeclarationId}

theorem GivesDeclaration.mono (given : GivesDeclaration id before) (run : Run before after) :
    GivesDeclaration id after :=
  Nat.lt_of_lt_of_le given run.grows.declarations

section Running

variable {walk : Walk α} {middle wider : α → State → Prop} {last : β → State → Prop}

theorem Safely.mono (safe : Safely marks state walk post)
    (widens : ∀ value after, post value after → wider value after) :
    Safely marks state walk wider := by
  intro within
  have walked := safe within
  split at walked
  · next value after _ => exact ⟨walked.1, widens value after walked.2⟩
  · exact walked
  · exact walked

theorem Safely.given (safe : state.InRange → Safely marks state walk post) :
    Safely marks state walk post :=
  fun within => safe within within

theorem Safely.bind {next : α → Walk β} (first : Safely marks state walk middle)
    (second : ∀ value after, Leads marks state after → middle value after →
      Safely marks after (next value) last) :
    Safely marks state (walk >>= next) last := by
  intro within
  have walked := first within
  cases ran : walk state with
  | ok value after =>
    rw [ran] at walked
    rw [bind_run ran]
    have rest := second value after walked.1 walked.2 (walked.1.run.inRange within)
    split at rest
    · exact ⟨walked.1.trans rest.1, rest.2⟩
    · exact walked.1.run.trans rest
    · exact rest
  | error cut after =>
    rw [ran] at walked
    rw [bind_error ran]
    cases cut with
    | tooDeep => exact walked
    | breakdown cause => exact walked

theorem Safely.andThen {next : Walk β} (first : Safely marks state walk middle)
    (second : ∀ after, Leads marks state after → Safely marks after next last) :
    Safely marks state (walk >>= fun _ => next) last :=
  first.bind fun _ after leads _ => second after leads

theorem safely_pure {value : α} (holds : post value state) : Safely marks state (pure value) post :=
  fun _ => ⟨.refl, holds⟩

theorem safely_done : Safely marks state (pure ()) Whatever := safely_pure trivial

theorem Safely.map (first : Safely marks state walk middle) (result : α → β)
    (holds : ∀ value after, middle value after → last (result value) after) :
    Safely marks state (result <$> walk) last := by
  rw [map_eq_pure_bind]
  exact first.bind fun value after _ given => safely_pure (holds value after given)

theorem safely_get {next : State → Walk α} (rest : Safely marks state (next state) post) :
    Safely marks state (get >>= next) post := rest

theorem safely_demand {answer : Except GraphError α} {value : α} {next : α → Walk β}
    (given : answer = .ok value) (rest : Safely marks state (next value) last) :
    Safely marks state (demand answer >>= next) last := by
  subst given
  exact rest

end Running

section Collecting

theorem safely_report (name : String) (span : Span) :
    Safely marks state (report (.duplicate name) .error span) Whatever :=
  fun _ => ⟨.of_step (.report state name span) rfl rfl rfl rfl, trivial⟩

def State.entering (state : State) (kind : ScopeKind) : State :=
  { state with
    graph := state.graph.addScope kind (some state.scope), scope := state.graph.scopes.length }

theorem inScope_run (kind : ScopeKind) (walk : ScopeId → Walk α) (state : State) :
    inScope kind walk state =
      match walk state.graph.scopes.length (state.entering kind) with
      | .ok value after => .ok value { after with scope := state.scope }
      | .error cut after => .error cut after := by
  change EStateM.bind (walk state.graph.scopes.length) _ (state.entering kind) = _
  unfold EStateM.bind
  split
  · next value after ran => rw [ran]; rfl
  · next cut after ran => rw [ran]

theorem safely_inScope {kind : ScopeKind} (inner : kind ≠ .root) {walk : ScopeId → Walk α}
    (inside : state.InRange → Safely marks (state.entering kind) (walk state.graph.scopes.length)
      fun value after => post value { after with scope := state.scope }) :
    Safely marks state (inScope kind walk) post := by
  intro within
  have entered : Step state (state.entering kind) := .enter state inner within.scope
  have grows := (Run.grows (.single entered)).scopes
  have walked := inside within (entered.inRange within)
  rw [inScope_run]
  split at walked
  · next value after ran =>
    obtain ⟨leads, holds⟩ := walked
    have back := Nat.lt_of_lt_of_le within.scope (Nat.le_trans grows leads.run.grows.scopes)
    rw [ran]
    refine ⟨⟨.head entered (.tail leads.run (.leave after state.scope back)), rfl, leads.depth,
      leads.references, fun inheritance member => ?_⟩, holds⟩
    exact (leads.inheritances inheritance member).imp id (Nat.le_trans grows)
  · next ran =>
    rw [ran]
    exact .head entered walked
  · next ran =>
    rw [ran]
    exact walked

theorem deferring_run (walk : Walk Unit) (state : State) :
    deferring walk state =
      match walk { state with functionDepth := state.functionDepth + 1 } with
      | .ok () after => .ok () { after with functionDepth := after.functionDepth - 1 }
      | .error cut after => .error cut after := by
  change EStateM.bind walk _ _ = _
  unfold EStateM.bind
  split
  · next value after ran => rw [ran]; rfl
  · next cut after ran => rw [ran]

theorem safely_deferring {walk : Walk Unit} {post : Unit → State → Prop}
    (inside : Safely marks { state with functionDepth := state.functionDepth + 1 } walk
      fun value after => post value { after with functionDepth := after.functionDepth - 1 }) :
    Safely marks state (deferring walk) post := by
  intro within
  have deeper := Step.defer state (state.functionDepth + 1)
  have walked := inside (deeper.inRange within)
  rw [deferring_run]
  split at walked
  · next value after ran =>
    obtain ⟨leads, holds⟩ := walked
    rw [ran]
    refine ⟨⟨.head deeper (.tail leads.run (.defer after (after.functionDepth - 1))), leads.scope, ?_,
      leads.references, leads.inheritances⟩, holds⟩
    exact Nat.sub_eq_of_eq_add leads.depth
  · next ran =>
    rw [ran]
    exact .head deeper walked
  · next ran =>
    rw [ran]
    exact walked

theorem safely_updateDeclaration {update : Declaration → Declaration}
    (given : GivesDeclaration id state)
    (step : Step state { state with graph := state.graph.updateDeclaration id update }) :
    Safely marks state (updateDeclaration id update) Whatever := by
  obtain ⟨declaration, -, found⟩ := ScopeGraph.declaration_ok given
  exact safely_get (safely_demand found fun _ => ⟨.of_step step rfl rfl rfl rfl, trivial⟩)

def GivesNames (ids : DeclarationId × Option DeclarationId) (state : State) : Prop :=
  GivesDeclaration ids.1 state ∧ ∀ previous ∈ ids.2, GivesDeclaration previous state

variable {scope : ScopeId}

theorem safely_bind (inside : scope < state.graph.scopes.length) (name : String)
    (kind : DeclarationKind) (span : Span) :
    Safely marks state (bind scope name kind span) fun ids after =>
      GivesNames ids after ∧ after.graph.Declares scope name kind span := by
  intro within
  have ran : bind scope name kind span state =
      demand ((state.graph.scope scope).map fun _ =>
          (state.graph.declarations.length, state.graph.latest? scope name))
        { state with
          seq := state.seq + 1
          graph := state.graph.declare scope name kind span (state.seq + 1) } := rfl
  obtain ⟨found, -, given⟩ := ScopeGraph.scope_ok inside
  have declared := Step.declare state scope name kind span inside
  rw [ran, given]
  refine ⟨.of_step declared rfl rfl rfl rfl, ⟨?_, fun previous isPrevious => ?_⟩, state.seq + 1, ?_⟩
  · simp [GivesDeclaration]
  · exact Nat.lt_of_lt_of_le (within.graph.latest scope name previous isPrevious)
      (Run.grows (.single declared)).declarations
  · simp [ScopeGraph.declare, ScopeGraph.updateScope, Declaration.stamp]

theorem safely_quiet (given : GivesDeclaration id state) :
    Safely marks state (updateDeclaration id ({ · with quiet := true })) Whatever :=
  safely_updateDeclaration given (.quiet state id)

theorem safely_declareIn (inside : scope < state.graph.scopes.length) (name : String)
    (kind : DeclarationKind) (span : Span) :
    Safely marks state (declareIn scope name kind span) fun id after =>
      GivesDeclaration id after ∧ after.graph.Declares scope name kind span := by
  refine (safely_bind inside name kind span).bind fun ids bound leads ⟨given, declares⟩ => ?_
  obtain ⟨id, previous?⟩ := ids
  cases previous? with
  | none => exact safely_pure ⟨given.1, declares⟩
  | some previous =>
    have still := Nat.lt_of_lt_of_le inside leads.run.grows.scopes
    obtain ⟨found, -, isFound⟩ := ScopeGraph.scope_ok still
    refine safely_get (safely_demand isFound ?_)
    by_cases isRoot : found.kind = .root
    · simp only [isRoot, ne_eq, not_true_eq_false, if_false]
      exact safely_pure ⟨given.1, declares⟩
    · simp only [ne_eq, isRoot, not_false_eq_true, if_true]
      refine (safely_quiet (given.2 previous rfl)).andThen fun quieted quiet => ?_
      refine (safely_report _ _).andThen fun reported report => ?_
      have later := quiet.run.trans report.run
      exact safely_pure ⟨given.1.mono later, Run.declares later declares⟩

theorem safely_declare (token : Token) (kind : DeclarationKind) :
    Safely marks state (declare token kind) GivesDeclaration :=
  .given fun within => safely_get
    ((safely_declareIn within.scope token.text kind token.span).mono fun _ _ => And.left)

theorem safely_recover (inside : scope < state.graph.scopes.length) (token : Token)
    (kind : DeclarationKind) : Safely marks state (recover scope token kind) Whatever :=
  (safely_bind inside token.text kind token.span).bind fun _ _ _ given => safely_quiet given.1.1

theorem safely_refer {token : Token} (cited : ∀ own ∈ marks, (token, state.isLate) ∈ own)
    (isCall isRead isWrite : Bool) :
    Safely marks state (refer token isCall isRead isWrite) Whatever := by
  refine fun _ => ⟨⟨.single (.refer state token isCall isRead isWrite), rfl, rfl, ?_, fun _ => .inl⟩,
    trivial⟩
  refine List.forall_mem_append.mpr ⟨fun _ => .inl, List.forall_mem_singleton.mpr (.inr ?_)⟩
  exact fun own isOwn => ⟨token, cited own isOwn, rfl, rfl⟩

theorem safely_functionScope (isLocal : Bool) :
    Safely marks state (functionScope isLocal) fun id after => id < after.graph.scopes.length := by
  refine .given fun within => ?_
  obtain ⟨scope, -, found⟩ := ScopeGraph.scope_ok within.scope
  refine safely_get (safely_get (safely_demand found (safely_pure ?_)))
  split
  · exact within.graph.rooted
  · exact within.scope

theorem safely_recoverNames (earlier before : Option Token) (tokens : List Token) :
    Safely marks state (recoverNames earlier before tokens) Whatever := by
  induction tokens generalizing state earlier before with
  | nil => exact safely_done
  | cons token rest ih =>
    have onward (after : State) (_ : Leads marks state after) :
        Safely marks after (recoverNames before (some token) rest) Whatever := ih before (some token)
    refine .given fun within => ?_
    unfold recoverNames
    dsimp only
    split
    · split
      · exact (safely_recover within.scope token .localVariable).andThen onward
      · split
        · refine (safely_functionScope _).bind fun scope _ leads inside => ?_
          exact (safely_recover inside token .function).andThen fun after later =>
            onward after (leads.trans later)
        · split
          · exact (safely_recover within.graph.rooted token .tableSlot).andThen onward
          · exact onward state .refl
    · exact onward state .refl

/-- A walk gives a declaration its table as an edit of the graph by number does. -/
theorem updateDeclaration_table (id : DeclarationId) (table : Option ScopeId) (state : State) :
    updateDeclaration id ({ · with tableScope := table }) state =
      match state.graph.trySetTableScope id table with
      | .ok graph => .ok () { state with graph := graph }
      | .error error => .error (.breakdown (.outOfRange error)) state := by
  have ran : updateDeclaration id ({ · with tableScope := table }) state =
      (demand (state.graph.declaration id) >>= fun _ => modify fun state =>
        { state with graph := state.graph.updateDeclaration id ({ · with tableScope := table }) })
        state := rfl
  rw [ran, ScopeGraph.trySetTableScope]
  cases state.graph.declaration id <;> rfl

theorem safely_setTable {table : Option ScopeId} (given : GivesDeclaration id state)
    (tabled : GivesScope table state) :
    Safely marks state (updateDeclaration id ({ · with tableScope := table })) Whatever :=
  safely_updateDeclaration given (.tabulate state id tabled)

/-- The number that an entry of a table was declared under, if it has a name. -/
def GivesSlot (state : State) (entry : Tree × Option DeclarationId) : Prop :=
  (∀ id ∈ entry.2, GivesDeclaration id state) ∧
    ((slotName? entry.1).isSome → entry.2.isSome)

theorem GivesSlot.mono {entry : Tree × Option DeclarationId} (given : GivesSlot before entry)
    (run : Run before after) : GivesSlot after entry :=
  ⟨fun id isSlot => (given.1 id isSlot).mono run, given.2⟩

/-- The names of the entries of a table are declared in its scope. -/
def HoldsSlots (graph : ScopeGraph) (scope : ScopeId) (entries : List Tree) : Prop :=
  ∀ entry ∈ entries, ∀ name ∈ slotName? entry, graph.Declares scope name.1 .tableSlot name.2

theorem HoldsSlots.mono {entries : List Tree} (holds : HoldsSlots before.graph scope entries)
    (run : Run before after) : HoldsSlots after.graph scope entries :=
  fun entry member name isName => run.declares (holds entry member name isName)

theorem safely_declareSlots (entries : List Tree) (inside : scope < state.graph.scopes.length) :
    Safely marks state (declareSlots scope entries) fun slots after =>
      (slots.map (·.1) = entries ∧ ∀ slot ∈ slots, GivesSlot after slot) ∧
        HoldsSlots after.graph scope entries := by
  induction entries generalizing state with
  | nil => exact safely_pure (by simp [HoldsSlots])
  | cons entry entries ih =>
    have onward (slot : Option DeclarationId) {after : State} (leads : Leads marks state after)
        (given : GivesSlot after (entry, slot)) (declares : HoldsSlots after.graph scope [entry]) :
        Safely marks after (do return (entry, slot) :: (← declareSlots scope entries))
          fun slots after =>
            (slots.map (·.1) = entry :: entries ∧ ∀ slot ∈ slots, GivesSlot after slot) ∧
              HoldsSlots after.graph scope (entry :: entries) := by
      refine (((ih (Nat.lt_of_lt_of_le inside leads.run.grows.scopes)).bind
        fun slots _ later ⟨others, held⟩ => safely_pure ⟨⟨?_, ?_⟩, ?_⟩))
      · simp [others.1]
      · exact List.forall_mem_cons.mpr ⟨given.mono later.run, others.2⟩
      · exact List.forall_mem_cons.mpr ⟨declares.mono later.run entry (by simp), held⟩
    unfold declareSlots
    cases named : slotName? entry with
    | none => exact onward none .refl ⟨by simp, by simp [named]⟩ (by simp [HoldsSlots, named])
    | some name =>
      have declared : Safely marks state (some <$> declareIn scope name.1 .tableSlot name.2)
          fun slot after => GivesSlot after (entry, slot) ∧ HoldsSlots after.graph scope [entry] :=
        (safely_declareIn inside name.1 .tableSlot name.2).map some fun id _ given => by
          refine ⟨⟨by simpa using given.1, fun _ => rfl⟩, List.forall_mem_singleton.mpr ?_⟩
          intro own isOwn
          cases named.symm.trans isOwn
          exact given.2
      exact declared.bind fun slot _ leads given => onward slot leads given.1 given.2

end Collecting

section Playing

/-- The scope of a table is given by every table, with its slots. It is new, and nothing is inherited
yet. -/
def GivesTable (tree : Tree) (before : State) (value : Option ScopeId) (after : State) : Prop :=
  GivesScope value after ∧ (tree.hasLabel .table → ∃ id, value = some id ∧
    before.graph.scopes.length ≤ id ∧
    (∀ inheritance ∈ after.inheritances, inheritance.tableScope ≠ id) ∧
    HoldsSlots after.graph id tree.subtrees)

/-- A visitor that goes step by step, and never breaks down if it is known what to expect. -/
def SafeVisitor (marks : Option (List (Token × Bool))) (walk : Visitor) : Prop :=
  ∀ {late tree state}, (∀ own ∈ marks, Made tree tree ∧ tree.timed late ⊆ own) →
    state.isLate = late →
    Safely marks state (walk tree) (GivesTable tree state)

theorem safely_misshapen (label : Label) (unsure : ∀ own, own ∉ marks) :
    Safely marks state (misshapen label : Walk α) post :=
  fun _ => Option.eq_none_iff_forall_not_mem.mpr unsure

/-- An entry of a table that can be filled. One that is given a value has a name. -/
def Filling.IsSafe (entry : Tree) : Filling → Prop
  | .acts own => ActsLike Made own own
  | .value tree => Made tree tree ∧ (slotName? entry).isSome

variable {walk : Visitor}

theorem safely_find (home : Home) :
    Safely marks state home.find fun id after => id < after.graph.scopes.length := by
  refine .given fun within => ?_
  cases home with
  | here => exact safely_get (safely_pure within.scope)
  | root => exact safely_pure within.graph.rooted
  | function isLocal => exact safely_functionScope isLocal

theorem safely_tableOf (safe : SafeVisitor marks walk) {value? : Option Tree}
    (made : ∀ own ∈ marks, Option.Rel Made value? value? ∧ ∀ value ∈ value?, value.timed late ⊆ own)
    (now : state.isLate = late) : Safely marks state (tableOf walk value?) GivesScope := by
  cases value? with
  | none => exact safely_pure (by simp [GivesScope])
  | some value =>
    refine (safe (fun own isOwn => ?_) now).mono fun _ _ given => given.1
    exact (made own isOwn).imp Option.rel_some_some.mp (· value rfl)

theorem safely_bound {table : Option ScopeId} (tabled : GivesScope table state) (home : Home)
    (name : Token) (kind : DeclarationKind) :
    Safely marks state (do
      let id ← declareIn (← home.find) name.text kind name.span
      updateDeclaration id ({ · with tableScope := table })) Whatever := by
  refine (safely_find home).bind fun _ _ leads inside => ?_
  refine (safely_declareIn inside _ _ _).bind fun id _ declared given => ?_
  exact safely_setTable given.1 (tabled.mono (leads.run.trans declared.run))

mutual

theorem safely_play (safe : SafeVisitor marks walk) : (act : Act) → ∀ {late state},
    (∀ own ∈ marks, ActLike Made act act ∧ act.IsTimed own late) → state.isLate = late →
      Safely marks state (act.play walk) Whatever
  | .walk tree, _, _, like, now =>
    (safe (fun own isOwn => match like own isOwn with | ⟨.walk made, timed⟩ => ⟨made, timed⟩)
      now).andThen fun _ _ => safely_done
  | .refer name _ _ _, _, _, like, now =>
    safely_refer (fun own isOwn => now ▸ (like own isOwn).2) _ _ _
  | .declare home _ _, _, _, _, _ =>
    (safely_find home).bind fun _ _ _ inside =>
      (safely_declareIn inside _ _ _).andThen fun _ _ => safely_done
  | .excuse name, _, _, _, _ =>
    (safely_declare name .parameter).bind fun _ _ _ given => safely_quiet given
  | .bind home _ _ value?, _, _, like, now => by
    rw [Act.play]
    refine (safely_tableOf safe (fun own isOwn => ?_) now).bind fun table _ _ tabled => ?_
    · match like own isOwn with
      | ⟨.bind _ _ _ made, timed⟩ => exact ⟨made, timed⟩
    exact safely_bound tabled home _ _
  | .recover tokens, _, _, _, _ => safely_recoverNames none none tokens
  | .within enclosure later acts, late, state, like, now => by
    have inside : ∀ own ∈ marks, ActsLike Made acts acts ∧ AreTimed own (later || late) acts :=
      fun own isOwn => match like own isOwn with
        | ⟨.within _ _ like, timed⟩ => ⟨like, timed⟩
    rw [Act.play]
    refine safely_inScope enclosure.kind_ne_root fun _ => ?_
    cases later with
    | true => exact safely_deferring (safely_playAll safe acts inside (by simp [State.isLate]))
    | false => exact safely_playAll safe acts inside now
  | .fail label, _, _, like, _ =>
    safely_misshapen label fun own isOwn => nomatch (like own isOwn).1

theorem safely_playAll (safe : SafeVisitor marks walk) : (acts : List Act) → ∀ {late state},
    (∀ own ∈ marks, ActsLike Made acts acts ∧ AreTimed own late acts) → state.isLate = late →
      Safely marks state (playAll walk acts) Whatever
  | [], _, _, _, _ => safely_done
  | act :: acts, _, _, like, now => by
    have both (own) (isOwn : own ∈ marks) := (like own isOwn).imp List.forall₂_cons.mp id
    exact (safely_play safe act (fun own isOwn => (both own isOwn).imp And.left And.left)
      now).andThen fun _ leads => safely_playAll safe acts
        (fun own isOwn => (both own isOwn).imp And.right And.right) (leads.isLate now)

end

section

variable (safe : SafeVisitor marks walk)

include safe

theorem safely_filling {entry : Tree} {slot : Option DeclarationId}
    (filled : ∀ own ∈ marks, (filling entry).IsSafe entry ∧ (filling entry).IsTimed own late)
    (given : GivesSlot state (entry, slot)) (now : state.isLate = late) :
    Safely marks state ((filling entry).play walk slot) Whatever := by
  cases same : filling entry with
  | acts acts =>
    rw [same] at filled
    exact safely_playAll safe acts filled now
  | value tree =>
    rw [same] at filled
    refine (safe (fun own isOwn => (filled own isOwn).imp And.left id) now).bind
      fun table _ leads tabled => ?_
    cases slot with
    | some id => exact safely_setTable ((given.1 id rfl).mono leads.run) tabled.1
    | none =>
      refine safely_misshapen _ fun own isOwn => ?_
      simpa using given.2 (filled own isOwn).1.2

theorem safely_fillAll {slots : List (Tree × Option DeclarationId)}
    (filled : ∀ slot ∈ slots, ∀ own ∈ marks,
      (filling slot.1).IsSafe slot.1 ∧ (filling slot.1).IsTimed own late)
    (given : ∀ slot ∈ slots, GivesSlot state slot) (now : state.isLate = late) :
    Safely marks state (fillAll walk slots) Whatever := by
  induction slots generalizing state with
  | nil => exact safely_done
  | cons slot slots ih =>
    obtain ⟨first, others⟩ := List.forall_mem_cons.mp filled
    obtain ⟨firstGiven, othersGiven⟩ := List.forall_mem_cons.mp given
    refine (safely_filling safe first firstGiven now).andThen fun _ leads => ?_
    exact ih others (fun slot member => (othersGiven slot member).mono leads.run) (leads.isLate now)

theorem safely_table {entries : List Tree} (tree : Tree) (listed : tree.subtrees ⊆ entries)
    (filled : ∀ entry ∈ entries, ∀ own ∈ marks,
      (filling entry).IsSafe entry ∧ (filling entry).IsTimed own late)
    (now : state.isLate = late) :
    Safely marks state ((Ending.table entries).play walk) (GivesTable tree state) := by
  rw [Ending.play]
  refine safely_inScope (by decide) fun within => ?_
  have isTable : (state.entering .table).graph.IsTable state.graph.scopes.length := by
    simp [State.entering, ScopeGraph.addScope, ScopeGraph.IsTable]
  refine (safely_declareSlots entries isTable.inside).bind fun slots _ leads given => ?_
  obtain ⟨⟨rfl, slotted⟩, held⟩ := given
  refine (safely_fillAll safe (fun slot member => filled slot.1 (List.mem_map_of_mem member)) slotted
    (leads.isLate now)).andThen fun after walked =>
      safely_pure ⟨?_, fun _ => ⟨_, rfl, Nat.le_refl _, ?_, ?_⟩⟩
  · simpa [GivesScope] using (leads.trans walked).run.isTable isTable
  · intro inheritance member
    -- What inherits inside the table comes after it, and all else came before it.
    rcases (leads.trans walked).inheritances inheritance member with old | new
    · exact Nat.ne_of_lt (within.inheritances inheritance old).1
    · exact Nat.ne_of_gt (Nat.lt_of_lt_of_le isTable.inside new)
  · exact fun entry member => held.mono walked.run entry (listed member)

theorem safely_inherit (base : Tree) {body : Tree} (isTable : body.hasLabel .table)
    (now : state.isLate = late) (made : ∀ own ∈ marks, Made body body ∧ body.timed late ⊆ own) :
    Safely marks state ((Ending.inherit base body).play walk) GivesScope := by
  intro within
  have walked := safe made now within
  rw [Ending.play]
  cases ran : walk body state with
  | ok value after =>
    rw [ran] at walked
    rw [bind_run ran]
    obtain ⟨leads, given, isNew⟩ := walked
    obtain ⟨id, rfl, new, fresh, -⟩ := isNew isTable
    refine ⟨⟨.tail leads.run (.inherit after base (given id rfl) fresh), leads.scope, leads.depth,
      leads.references, List.forall_mem_append.mpr ⟨leads.inheritances, ?_⟩⟩, given⟩
    exact List.forall_mem_singleton.mpr (.inr new)
  | error cut after =>
    rw [ran] at walked
    rw [bind_error ran]
    cases cut with
    | tooDeep => exact walked
    | breakdown cause => exact walked

end

end Playing

section Scripts

variable {label : Label} {children : List Tree}

theorem safe_filling (made : (Tree.node label children).isMade) (listed : label ∈ Tree.entryLabels)
    : (filling (.node label children)).IsSafe (.node label children) := by
  obtain ⟨fits, isList⟩ := Bool.and_eq_true_iff.mp (Tree.admits_of_isMade made)
  have part := made_part (by rintro rfl; exact absurd listed (by decide)) made
  cases label
  case tableSlot | tableQuoted =>
    obtain ⟨key, isToken, _, -, value, -, rfl⟩ := itemized (of_decide_eq_true fits)
    obtain ⟨token, rfl⟩ := Tree.leaf_of_isNode isToken
    exact ⟨part value (by simp), rfl⟩
  case tableComputed =>
    obtain ⟨_, -, key, -, _, -, _, -, value, -, rfl⟩ := itemized (of_decide_eq_true fits)
    exact .cons (.walk (part key (by simp))) (one_like (.walk (part value (by simp))))
  case tableMethod =>
    obtain ⟨_, -, _, -, list, -, body, -, rfl⟩ := itemized (of_decide_eq_true fits)
    exact one_like (function_like tracks_made (part list (by simp)) (of_decide_eq_true isList)
      (part body (by simp)) .none)
  case error => exact .nil
  all_goals exact absurd listed (by decide)

theorem label_eq {own : Label} (labelled : (Tree.node label children).hasLabel own) :
    label = own := by
  simpa [Tree.hasLabel, Tree.label?] using labelled

theorem inherit_table {base body : Tree} (admitted : Tree.admits label children)
    (ends : (script label children).ending = .inherit base body) : body.hasLabel .table := by
  unfold script at ends
  split at ends
  case h_3 =>
    obtain ⟨_, _, both, isTable⟩ := inherit_parts (Bool.and_eq_true_iff.mp admitted).2
    rw [both] at ends
    cases ends
    exact isTable
  all_goals cases ends

end Scripts

section Walking

variable {walk : Visitor} {label : Label} {children : List Tree}

theorem safely_script (safe : SafeVisitor marks walk) (admitted : Tree.admits label children)
    (made : ∀ own ∈ marks, Made (.node label children) (.node label children) ∧
      (Tree.node label children).timed late ⊆ own)
    (now : state.isLate = late) :
    Safely marks state ((script label children).play walk)
      (GivesTable (.node label children) state) := by
  by_cases isTable : label = .table
  · subst isTable
    refine safely_table safe _ (List.Subset.refl _) (fun entry member own isOwn => ?_) now
    obtain ⟨inside, isNode⟩ := List.mem_filter.mp member
    have labelled := List.all_eq_true.mp (Bool.and_eq_true_iff.mp admitted).2 entry inside
    obtain ⟨⟨-, isMade, -⟩, marked⟩ := made own isOwn
    have entryMade := Tree.children_made isMade _ inside
    refine ⟨?_, timed_filling entryMade fun _ own => marked (timed_child inside own)⟩
    cases entry with
    | leaf token => cases isNode
    | node own inner =>
      exact safe_filling entryMade (by simpa [Tree.isLeaf, Tree.label?] using labelled)
  have other {walk : Walk (Option ScopeId)} {before : State}
      (safely : Safely marks before walk GivesScope) :
      Safely marks before walk (GivesTable (.node label children) state) :=
    safely.mono fun _ _ given => ⟨given, fun labelled => absurd (label_eq labelled) isTable⟩
  by_cases isError : label = .error
  · subst isError
    refine ((safely_recoverNames none none _).andThen fun _ _ => safely_done).andThen fun after _ => ?_
    exact other (safely_pure (by simp [GivesScope]))
  have like (own) (isOwn : own ∈ marks) := script_like tracks_made (made own isOwn).1 isTable isError
  have timed (own) (isOwn : own ∈ marks) := timed_script (made own isOwn).1 (made own isOwn).2
  refine (safely_playAll safe _ (fun own isOwn => ⟨(like own isOwn).acts, (timed own isOwn).1⟩)
    now).andThen fun after leads => other ?_
  have ended (own) (isOwn : own ∈ marks) := And.intro (like own isOwn).ending (timed own isOwn).2
  have later := leads.isLate now
  cases ends : (script label children).ending with
  | nothing => exact safely_pure (by simp [GivesScope])
  | value tree =>
    rw [ends] at ended
    refine (safe (fun own isOwn => ?_) later).mono fun _ _ given => given.1
    match ended own isOwn with
    | ⟨.value made, timed⟩ => exact ⟨made, timed⟩
  | table entries =>
    rw [ends] at ended
    exact (safely_table safe (.node .table []) (List.nil_subset _) (fun _ _ own isOwn => nomatch (ended own isOwn).1)
      later).mono fun _ _ given => given.1
  | inherit base body =>
    rw [ends] at ended
    refine safely_inherit safe base (inherit_table admitted ends) later fun own isOwn => ?_
    match ended own isOwn with
    | ⟨.inherit _ made, timed⟩ => exact ⟨made, timed⟩

end Walking

theorem safeVisitor_walk (marks : Option (List (Token × Bool))) (levels : Nat) :
    SafeVisitor marks (walk levels) := by
  induction levels with
  | zero =>
    intro late tree state made now
    cases tree with
    | leaf token => exact safely_pure ⟨by simp [GivesScope], fun wrong => by cases wrong⟩
    | node label children => exact fun _ => .refl
  | succ levels ih =>
    intro late tree state made now
    cases tree with
    | leaf token => exact safely_pure ⟨by simp [GivesScope], fun wrong => by cases wrong⟩
    | node label children =>
      rw [walk_node]
      split
      · next admitted => exact safely_script ih admitted made now
      · next unfit =>
        exact safely_misshapen label fun own isOwn =>
          unfit (Tree.admits_of_isMade (made own isOwn).1.made)

theorem walkTree_run [NestingLimit] {tree : Tree} {complete : Bool}
    (walked : walkTree? tree = .ok (state, complete)) : Run .initial state := by
  have safe := @safeVisitor_walk none nestingLimit _ tree _ nofun rfl inRange_initial
  unfold walkTree? at walked
  split at safe
  · next ran =>
    rw [ran] at walked
    cases walked
    exact safe.1.run
  · next ran =>
    rw [ran] at walked
    cases walked
    exact safe
  · next ran =>
    rw [ran] at walked
    cases walked

end Analysis

end Squirrel
