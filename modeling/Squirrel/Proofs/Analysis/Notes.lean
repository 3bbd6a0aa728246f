import Squirrel.Proofs.Analysis.Collected

/-! What a walk does, written down note by note. Scopes, declarations and sequence numbers have names
in the notes which are free to choose, so that the same notes tell of a walk from any state. -/

namespace Squirrel.Analysis

/-- Where a walk stands: in a scope, with those around it, the nearest one first. -/
structure Place where
  here : ScopeId
  around : List ScopeId
  deferred : Bool
  deriving DecidableEq

namespace Place

def chain (place : Place) : List ScopeId := place.here :: place.around

def enter (place : Place) (id : ScopeId) (later : Bool) : Place :=
  ⟨id, place.chain, place.deferred || later⟩

end Place

/-- The scope that a name is declared in, from where the walk stands. -/
def Home.at (place : Place) : Home → ScopeId
  | .here => place.here
  | .root => ScopeGraph.root
  | .function isLocal =>
    if place.around.head? = some ScopeGraph.root ∧ !isLocal then ScopeGraph.root else place.here

/-- A declaration. Nobody has to use an `excused` one. -/
structure Naming where
  id : DeclarationId
  stamp : Nat
  home : ScopeId
  name : String
  kind : DeclarationKind
  span : Span
  excused : Bool
  deriving DecidableEq

structure Use where
  stamp : Nat
  place : Place
  deriving DecidableEq

inductive Note where
  | scope (id : ScopeId) (kind : ScopeKind) (outer : ScopeId)
  | declare (naming : Naming)
  | tabulate (id : DeclarationId) (table : Option ScopeId)
  | refer (use : Use) (name : Token) (isCall isRead isWrite : Bool)
  | inherit (use : Use) (table : ScopeId) (base : Tree)

namespace Note

@[simp] def scopeId? : Note → Option ScopeId
  | .scope id _ _ => some id
  | _ => none

@[simp] def naming? : Note → Option Naming
  | .declare naming => some naming
  | _ => none

@[simp] def stamp? : Note → Option Nat
  | .declare naming => some naming.stamp
  | .refer use _ _ _ _ => some use.stamp
  | .inherit use _ _ => some use.stamp
  | _ => none

end Note

section Lists

variable (note : Note) (notes others : List Note)

def scopeIds : List ScopeId := notes.filterMap Note.scopeId?

def namings : List Naming := notes.filterMap Note.naming?

def stamps : List Nat := notes.filterMap Note.stamp?

@[simp] theorem scopeIds_nil : scopeIds [] = [] := rfl

@[simp] theorem namings_nil : namings [] = [] := rfl

@[simp] theorem stamps_nil : stamps [] = [] := rfl

@[simp] theorem scopeIds_cons :
    scopeIds (note :: notes) = note.scopeId?.toList ++ scopeIds notes := by
  cases note <;> rfl

@[simp] theorem namings_cons : namings (note :: notes) = note.naming?.toList ++ namings notes := by
  cases note <;> rfl

@[simp] theorem stamps_cons : stamps (note :: notes) = note.stamp?.toList ++ stamps notes := by
  cases note <;> rfl

@[simp] theorem scopeIds_append : scopeIds (notes ++ others) = scopeIds notes ++ scopeIds others :=
  List.filterMap_append

@[simp] theorem namings_append : namings (notes ++ others) = namings notes ++ namings others :=
  List.filterMap_append

@[simp] theorem stamps_append : stamps (notes ++ others) = stamps notes ++ stamps others :=
  List.filterMap_append

end Lists

section Leaving

/-- The notes that a walk over a tree leaves at a place, with the table that the tree stands for. -/
abbrev Trail : Type := Tree → Place → List Note → Option ScopeId → Prop

variable (trail : Trail)

inductive ValueLeaves (place : Place) : Option Tree → List Note → Option ScopeId → Prop
  | none : ValueLeaves place none [] none
  | some {tree : Tree} {notes : List Note} {table : Option ScopeId}
      (walked : trail tree place notes table) : ValueLeaves place (some tree) notes table

mutual

/-- The notes of an act. Whatever is malformed leaves none. -/
inductive Act.Leaves : Act → Place → List Note → Prop
  | walk {tree : Tree} {place : Place} {notes : List Note} {table : Option ScopeId}
      (walked : trail tree place notes table) : Act.Leaves (.walk tree) place notes
  | refer (name : Token) (isCall isRead isWrite : Bool) (place : Place) (stamp : Nat) :
    Act.Leaves (.refer name isCall isRead isWrite) place
      [.refer ⟨stamp, place⟩ name isCall isRead isWrite]
  | declare (home : Home) (name : Token) (kind : DeclarationKind) (place : Place)
      (id : DeclarationId) (stamp : Nat) :
    Act.Leaves (.declare home name kind) place
      [.declare ⟨id, stamp, home.at place, name.text, kind, name.span, false⟩]
  | excuse (name : Token) (place : Place) (id : DeclarationId) (stamp : Nat) :
    Act.Leaves (.excuse name) place
      [.declare ⟨id, stamp, place.here, name.text, .parameter, name.span, true⟩]
  | bind (home : Home) (name : Token) (kind : DeclarationKind) {value? : Option Tree}
      {place : Place} {notes : List Note} {table : Option ScopeId} (id : DeclarationId)
      (stamp : Nat) (valued : ValueLeaves trail place value? notes table) :
    Act.Leaves (.bind home name kind value?) place (notes ++
      [.declare ⟨id, stamp, home.at place, name.text, kind, name.span, false⟩,
        .tabulate id table])
  | within (enclosure : Enclosure) (later : Bool) {acts : List Act} {place : Place}
      {notes : List Note} (id : ScopeId) (inside : LeaveAll acts (place.enter id later) notes) :
    Act.Leaves (.within enclosure later acts) place (.scope id enclosure.kind place.here :: notes)

inductive LeaveAll : List Act → Place → List Note → Prop
  | nil (place : Place) : LeaveAll [] place []
  | cons {act : Act} {acts : List Act} {place : Place} {notes others : List Note}
      (first : Act.Leaves act place notes) (rest : LeaveAll acts place others) :
    LeaveAll (act :: acts) place (notes ++ others)

end

inductive Filling.Leaves (place : Place) : Filling → Option DeclarationId → List Note → Prop
  | acts {own : List Act} {notes : List Note} (slot : Option DeclarationId)
      (played : LeaveAll trail own place notes) : Filling.Leaves place (.acts own) slot notes
  | value {tree : Tree} {notes : List Note} {table : Option ScopeId} (id : DeclarationId)
      (walked : trail tree place notes table) :
    Filling.Leaves place (.value tree) (some id) (notes ++ [.tabulate id table])

/-- An entry of a table leaves a declaration first, if it has a name. -/
inductive SlotLeaves (place : Place) : Tree → List Note → Prop
  | named {entry : Tree} {name : String} {span : Span} (id : DeclarationId) (stamp : Nat)
      (isNamed : slotName? entry = some (name, span)) :
    SlotLeaves place entry [.declare ⟨id, stamp, place.here, name, .tableSlot, span, false⟩]
  | unnamed {entry : Tree} (noName : slotName? entry = none) : SlotLeaves place entry []

def slotOf (notes : List Note) : Option DeclarationId := (namings notes).head?.map (·.id)

/-- The notes of an entry, first those of its name and then those of its value. -/
structure EntryLeaves (place : Place) (entry : Tree) (block : List Note × List Note) : Prop where
  slot : SlotLeaves place entry block.1
  filled : (filling entry).Leaves trail place (slotOf block.1) block.2

inductive Ending.Leaves (place : Place) : Ending → List Note → Option ScopeId → Prop
  | nothing : Ending.Leaves place .nothing [] none
  | value {tree : Tree} {notes : List Note} {table : Option ScopeId}
      (walked : trail tree place notes table) : Ending.Leaves place (.value tree) notes table
  | table {entries : List Tree} (id : ScopeId) {blocks : List (List Note × List Note)}
      (filled : List.Forall₂ (EntryLeaves trail (place.enter id false)) entries blocks) :
    Ending.Leaves place (.table entries)
      (.scope id .table place.here :: (blocks.flatMap (·.1) ++ blocks.flatMap (·.2))) (some id)
  | inherit {base body : Tree} {notes : List Note} {table : ScopeId} (stamp : Nat)
      (walked : trail body place notes (some table)) :
    Ending.Leaves place (.inherit base body) (notes ++ [.inherit ⟨stamp, place⟩ table base])
      (some table)

inductive Script.Leaves (place : Place) : Script → List Note → Option ScopeId → Prop
  | mk {script : Script} {notes others : List Note} {table : Option ScopeId}
      (played : LeaveAll trail script.acts place notes)
      (ended : script.ending.Leaves trail place others table) :
    Script.Leaves place script (notes ++ others) table

end Leaving

/-- The notes that a walk leaves, as long as the nesting stays within a number of levels. -/
def Leaves : Nat → Trail
  | _, .leaf _ => fun _ notes table => notes = [] ∧ table = none
  | 0, .node _ _ => fun _ _ _ => False
  | levels + 1, .node label children => fun place notes table =>
    Tree.admits label children ∧ (script label children).Leaves (Leaves levels) place notes table

section Numbering

/-- The numbers that the names in some notes stand for. Only the root has the number of the root. -/
structure Numbering where
  scopes : ScopeId → ScopeId
  declarations : DeclarationId → DeclarationId
  stamps : Nat → Nat
  rooted : ∀ id, scopes id = ScopeGraph.root ↔ id = ScopeGraph.root

def Numbering.same : Numbering := ⟨id, id, id, fun _ => Iff.rfl⟩

/-- Whether some names stand for numbers that are counted on from a first one. -/
def Counts (number : Nat → Nat) (first : Nat) (names : List Nat) : Prop :=
  names.map number = List.range' first names.length

variable {number : Nat → Nat} {first : Nat}

theorem counts_nil : Counts number first [] := rfl

theorem counts_cons {name : Nat} {names : List Nat} :
    Counts number first (name :: names) ↔ number name = first ∧ Counts number (first + 1) names := by
  simp [Counts, List.range'_succ]

theorem counts_append {names others : List Nat} :
    Counts number first (names ++ others) ↔
      Counts number first names ∧ Counts number (first + names.length) others := by
  induction names generalizing first with
  | nil => simp [counts_nil]
  | cons name names ih =>
    rw [List.cons_append, counts_cons, counts_cons, ih, List.length_cons, and_assoc,
      Nat.add_right_comm, Nat.add_assoc]

theorem counts_single {name : Nat} : Counts number first [name] ↔ number name = first := by
  simp [counts_cons, counts_nil]

end Numbering

section Replaying

variable (numbering : Numbering)

/-- What a declaration makes of a state. A name that is there already is reported, unless it is one
of the root scope. -/
def declared (state : State) (home : ScopeId) (name : String) (kind : DeclarationKind)
    (span : Span) : State :=
  let next : State := { state with
    seq := state.seq + 1
    graph := state.graph.declare home name kind span (state.seq + 1) }
  match state.graph.latest? home name with
  | some previous =>
    if state.graph.scopes[home]?.any (·.kind = .root) then next
    else { next with
      graph := next.graph.updateDeclaration previous ({ · with quiet := true })
      diagnostics := next.diagnostics ++ [⟨.semantic (.duplicate name), .error, span⟩] }
  | none => next

def Note.replay : Note → State → State
  | .scope _ kind outer, state =>
    { state with graph := state.graph.addScope kind (some (numbering.scopes outer)) }
  | .declare naming, state =>
    let next := declared state (numbering.scopes naming.home) naming.name naming.kind naming.span
    if naming.excused then
      { next with
        graph := next.graph.updateDeclaration state.graph.declarations.length
          ({ · with quiet := true }) }
    else next
  | .tabulate id table, state =>
    { state with
      graph := state.graph.updateDeclaration (numbering.declarations id)
        ({ · with tableScope := table.map numbering.scopes }) }
  | .refer use name isCall isRead isWrite, state =>
    { state with
      seq := state.seq + 1
      references := state.references ++ [⟨name.text, numbering.scopes use.place.here, state.seq + 1,
        use.place.deferred, name.span, isCall, isRead, isWrite⟩] }
  | .inherit use table base, state =>
    { state with
      seq := state.seq + 1
      inheritances := state.inheritances ++ [⟨numbering.scopes table, base,
        numbering.scopes use.place.here, state.seq + 1, use.place.deferred⟩] }

def replay (notes : List Note) (state : State) : State :=
  notes.foldl (fun state note => note.replay numbering state) state

@[simp] theorem replay_nil (state : State) : replay numbering [] state = state := rfl

@[simp] theorem replay_cons (note : Note) (notes : List Note) (state : State) :
    replay numbering (note :: notes) state = replay numbering notes (note.replay numbering state) :=
  rfl

@[simp] theorem replay_append (notes others : List Note) (state : State) :
    replay numbering (notes ++ others) state =
      replay numbering others (replay numbering notes state) :=
  List.foldl_append

def State.standing (state : State) (scope : ScopeId) (depth : Nat) : State :=
  { state with scope := scope, functionDepth := depth }

theorem declared_standing (state : State) (scope : ScopeId) (depth : Nat) (home : ScopeId)
    (name : String) (kind : DeclarationKind) (span : Span) :
    declared (state.standing scope depth) home name kind span =
      (declared state home name kind span).standing scope depth := by
  unfold declared State.standing
  dsimp only
  split
  · split <;> rfl
  · rfl

theorem Note.replay_standing (note : Note) (state : State) (scope : ScopeId) (depth : Nat) :
    note.replay numbering (state.standing scope depth) =
      (note.replay numbering state).standing scope depth := by
  cases note with
  | declare naming =>
    unfold Note.replay
    dsimp only
    rw [declared_standing]
    split <;> rfl
  | _ => rfl

theorem replay_standing (notes : List Note) (state : State) (scope : ScopeId) (depth : Nat) :
    replay numbering notes (state.standing scope depth) =
      (replay numbering notes state).standing scope depth := by
  induction notes generalizing state with
  | nil => rfl
  | cons note notes ih => rw [replay_cons, replay_cons, note.replay_standing, ih]

structure Outlasts (before after : State) : Prop where
  scope : after.scope = before.scope
  depth : after.functionDepth = before.functionDepth
  scopes : ∀ (id : ScopeId) (scope : Scope), before.graph.scopes[id]? = some scope →
    ∃ later : Scope, after.graph.scopes[id]? = some later ∧
      later.kind = scope.kind ∧ later.parent = scope.parent

theorem Outlasts.refl (state : State) : Outlasts state state :=
  ⟨rfl, rfl, fun _ scope found => ⟨scope, found, rfl, rfl⟩⟩

theorem Outlasts.trans {first second third : State} (one : Outlasts first second)
    (two : Outlasts second third) : Outlasts first third where
  scope := two.scope.trans one.scope
  depth := two.depth.trans one.depth
  scopes id scope found := by
    obtain ⟨middle, isMiddle, kind, parent⟩ := one.scopes id scope found
    obtain ⟨last, isLast, lastKind, lastParent⟩ := two.scopes id middle isMiddle
    exact ⟨last, isLast, lastKind.trans kind, lastParent.trans parent⟩

theorem getElem_declare {graph : ScopeGraph} {id home : ScopeId} {scope : Scope}
    (found : graph.scopes[id]? = some scope) (name : String) (kind : DeclarationKind) (span : Span)
    (seq : Nat) : ∃ later : Scope, (graph.declare home name kind span seq).scopes[id]? = some later ∧
      later.kind = scope.kind ∧ later.parent = scope.parent := by
  rw [ScopeGraph.declare, ScopeGraph.updateScope, List.getElem?_modify, found]
  refine ⟨_, rfl, ?_⟩
  split <;> exact ⟨rfl, rfl⟩

theorem outlasts_declared (state : State) (home : ScopeId) (name : String) (kind : DeclarationKind)
    (span : Span) : Outlasts state (declared state home name kind span) := by
  unfold declared
  split
  · split <;> exact ⟨rfl, rfl, fun id scope found => getElem_declare found _ _ _ _⟩
  · exact ⟨rfl, rfl, fun id scope found => getElem_declare found _ _ _ _⟩

theorem Note.outlasts (note : Note) (state : State) :
    Outlasts state (note.replay numbering state) := by
  cases note with
  | scope id kind outer =>
    refine ⟨rfl, rfl, fun id scope found => ⟨scope, ?_, rfl, rfl⟩⟩
    obtain ⟨inside, -⟩ := List.getElem?_eq_some_iff.mp found
    exact (List.getElem?_append_left inside).trans found
  | declare naming =>
    have made := outlasts_declared state (numbering.scopes naming.home) naming.name naming.kind
      naming.span
    unfold Note.replay
    dsimp only
    split
    · exact ⟨made.scope, made.depth, made.scopes⟩
    · exact made
  | tabulate id table => exact ⟨rfl, rfl, (Outlasts.refl state).scopes⟩
  | refer use name isCall isRead isWrite => exact ⟨rfl, rfl, (Outlasts.refl state).scopes⟩
  | inherit use table base => exact ⟨rfl, rfl, (Outlasts.refl state).scopes⟩

theorem outlasts_replay (notes : List Note) (state : State) :
    Outlasts state (replay numbering notes state) := by
  induction notes generalizing state with
  | nil => exact .refl state
  | cons note notes ih => exact (note.outlasts numbering state).trans (ih _)

section Sizes

variable (home : ScopeId) (name : String) (kind : DeclarationKind) (span : Span) (state : State)

@[simp] theorem scopes_declared :
    (declared state home name kind span).graph.scopes.length = state.graph.scopes.length := by
  unfold declared
  split
  · split <;> simp
  · simp

@[simp] theorem declarations_declared :
    (declared state home name kind span).graph.declarations.length =
      state.graph.declarations.length + 1 := by
  unfold declared
  split
  · split <;> simp
  · simp

@[simp] theorem seq_declared : (declared state home name kind span).seq = state.seq + 1 := by
  unfold declared
  split
  · split <;> rfl
  · rfl

end Sizes

theorem scopes_replay (notes : List Note) (state : State) :
    (replay numbering notes state).graph.scopes.length =
      state.graph.scopes.length + (scopeIds notes).length := by
  have one (note : Note) (state : State) :
      (note.replay numbering state).graph.scopes.length =
        state.graph.scopes.length + note.scopeId?.toList.length := by
    unfold Note.replay
    split
    case h_2 => split <;> simp
    all_goals simp
  induction notes generalizing state with
  | nil => rfl
  | cons note notes ih => rw [replay_cons, ih, one, scopeIds_cons, List.length_append, Nat.add_assoc]

theorem declarations_replay (notes : List Note) (state : State) :
    (replay numbering notes state).graph.declarations.length =
      state.graph.declarations.length + (namings notes).length := by
  have one (note : Note) (state : State) :
      (note.replay numbering state).graph.declarations.length =
        state.graph.declarations.length + note.naming?.toList.length := by
    unfold Note.replay
    split
    case h_1 => rfl
    case h_2 => split <;> simp
    all_goals simp
  induction notes generalizing state with
  | nil => rfl
  | cons note notes ih => rw [replay_cons, ih, one, namings_cons, List.length_append, Nat.add_assoc]

theorem seq_replay (notes : List Note) (state : State) :
    (replay numbering notes state).seq = state.seq + (stamps notes).length := by
  have one (note : Note) (state : State) :
      (note.replay numbering state).seq = state.seq + note.stamp?.toList.length := by
    unfold Note.replay
    split
    case h_2 => split <;> simp
    all_goals simp
  induction notes generalizing state with
  | nil => rfl
  | cons note notes ih => rw [replay_cons, ih, one, stamps_cons, List.length_append, Nat.add_assoc]

/-- Whether the names in some notes stand for the numbers that come next in a state. -/
structure Numbers (state : State) (notes : List Note) : Prop where
  scopes : Counts numbering.scopes state.graph.scopes.length (scopeIds notes)
  declarations : Counts numbering.declarations state.graph.declarations.length
    ((namings notes).map (·.id))
  stamps : Counts numbering.stamps (state.seq + 1) (stamps notes)

theorem numbers_nil (state : State) : Numbers numbering state [] :=
  ⟨counts_nil, counts_nil, counts_nil⟩

theorem numbers_append {state : State} {notes others : List Note} :
    Numbers numbering state (notes ++ others) ↔
      Numbers numbering state notes ∧
        Numbers numbering (replay numbering notes state) others := by
  have split {first second : List Note} : Numbers numbering state (first ++ second) ↔
      (Counts numbering.scopes state.graph.scopes.length (scopeIds first ++ scopeIds second) ∧
        Counts numbering.declarations state.graph.declarations.length
          ((namings first).map (·.id) ++ (namings second).map (·.id)) ∧
        Counts numbering.stamps (state.seq + 1) (stamps first ++ stamps second)) := by
    rw [← scopeIds_append, ← List.map_append, ← namings_append, ← stamps_append]
    exact ⟨fun ⟨one, two, three⟩ => ⟨one, two, three⟩, fun ⟨one, two, three⟩ => ⟨one, two, three⟩⟩
  rw [split, counts_append, counts_append, counts_append, List.length_map, Nat.add_right_comm,
    ← scopes_replay numbering, ← declarations_replay numbering, ← seq_replay numbering]
  constructor
  · rintro ⟨⟨scopes, more⟩, ⟨declarations, others⟩, stamps, rest⟩
    exact ⟨⟨scopes, declarations, stamps⟩, ⟨more, others, rest⟩⟩
  · rintro ⟨⟨scopes, declarations, stamps⟩, ⟨more, others, rest⟩⟩
    exact ⟨⟨scopes, more⟩, ⟨declarations, others⟩, stamps, rest⟩

end Replaying

section Running

variable {numbering : Numbering} {place : Place} {state : State}

structure Ready (numbering : Numbering) (place : Place) (state : State) : Prop where
  filed : state.graph.Filed
  here : state.scope = numbering.scopes place.here
  deferred : place.deferred = decide (0 < state.functionDepth)
  found : ∃ scope, state.graph.scopes[numbering.scopes place.here]? = some scope ∧
    scope.parent = place.around.head?.map numbering.scopes

theorem Ready.inside (ready : Ready numbering place state) :
    numbering.scopes place.here < state.graph.scopes.length := by
  obtain ⟨scope, found, -⟩ := ready.found
  exact (List.getElem?_eq_some_iff.mp found).1

variable {notes : List Note}

theorem Ready.replay (ready : Ready numbering place state)
    (filed : (replay numbering notes state).graph.Filed) :
    Ready numbering place (replay numbering notes state) := by
  have kept := outlasts_replay numbering notes state
  obtain ⟨scope, found, parent⟩ := ready.found
  obtain ⟨later, isLater, -, same⟩ := kept.scopes _ scope found
  refine ⟨filed, kept.scope.trans ready.here, ?_, later, isLater, same.trans parent⟩
  rw [kept.depth]
  exact ready.deferred

def Replays (numbering : Numbering) (place : Place) {α : Type} (walk : Walk α) (notes : List Note)
    (value : α) : Prop :=
  ∀ state, Ready numbering place state → Numbers numbering state notes →
    walk state = .ok value (replay numbering notes state) ∧
      (replay numbering notes state).graph.Filed

theorem replays_pure {α : Type} (value : α) : Replays numbering place (pure value) [] value :=
  fun _ ready _ => ⟨rfl, ready.filed⟩

theorem Replays.bind {α β : Type} {walk : Walk α} {next : α → Walk β} {notes others : List Note}
    {first : α} {second : β} (one : Replays numbering place walk notes first)
    (two : Replays numbering place (next first) others second) :
    Replays numbering place (walk >>= next) (notes ++ others) second := by
  intro state ready numbers
  obtain ⟨early, late⟩ := (numbers_append numbering).mp numbers
  obtain ⟨ran, filed⟩ := one state ready early
  rw [bind_run ran, replay_append]
  exact two _ (ready.replay filed) late

theorem Replays.andThen {α β : Type} {walk : Walk α} {next : α → Walk β} {first : α} {second : β}
    (one : Replays numbering place walk notes first)
    (two : Replays numbering place (next first) [] second) :
    Replays numbering place (walk >>= next) notes second := by
  have both := one.bind two
  rwa [List.append_nil] at both

theorem find_run (ready : Ready numbering place state) (home : Home) :
    home.find state = .ok (numbering.scopes (home.at place)) state := by
  obtain ⟨scope, found, parent⟩ := ready.found
  have given : state.graph.scope state.scope = .ok scope := by
    rw [ready.here, ScopeGraph.scope, found]
  cases home with
  | here => exact congrArg (EStateM.Result.ok · state) ready.here
  | root =>
    have isRoot := (numbering.rooted ScopeGraph.root).mpr rfl
    exact congrArg (EStateM.Result.ok · state) isRoot.symm
  | function isLocal =>
    have top : scope.parent = some ScopeGraph.root ↔
        place.around.head? = some ScopeGraph.root := by
      rw [parent, Option.map_eq_some_iff]
      constructor
      · rintro ⟨around, isAround, isRoot⟩
        rw [isAround, (numbering.rooted around).mp isRoot]
      · intro isRoot
        exact ⟨_, isRoot, (numbering.rooted _).mpr rfl⟩
    have same : (scope.parent = some ScopeGraph.root ∧ (!isLocal)) =
        (place.around.head? = some ScopeGraph.root ∧ (!isLocal)) := by rw [top]
    have ran : functionScope isLocal state =
        .ok (if scope.parent = some ScopeGraph.root ∧ !isLocal then ScopeGraph.root
          else state.scope) state := by
      change (demand (state.graph.scope state.scope) >>= fun scope => pure _) state = _
      rw [given]
      rfl
    rw [Home.find, ran, ready.here, Home.at]
    congr 1
    rw [apply_ite numbering.scopes, (numbering.rooted ScopeGraph.root).mpr rfl]
    simp only [same]

variable {home : ScopeId}

theorem bind_declared (inside : home < state.graph.scopes.length) (name : String)
    (kind : DeclarationKind) (span : Span) :
    bind home name kind span state =
      .ok (state.graph.declarations.length, state.graph.latest? home name)
        { state with
          seq := state.seq + 1
          graph := state.graph.declare home name kind span (state.seq + 1) } := by
  obtain ⟨scope, -, given⟩ := ScopeGraph.scope_ok inside
  change demand ((state.graph.scope home).map fun _ => _) _ = _
  rw [given]
  rfl

variable {id : DeclarationId}

theorem updateDeclaration_run (inside : id < state.graph.declarations.length)
    (update : Declaration → Declaration) :
    updateDeclaration id update state =
      .ok () { state with graph := state.graph.updateDeclaration id update } := by
  obtain ⟨declaration, -, given⟩ := ScopeGraph.declaration_ok inside
  change (demand (state.graph.declaration id) >>= fun _ => _) state = _
  rw [given]
  rfl

theorem declareIn_run (filed : state.graph.Filed) (inside : home < state.graph.scopes.length)
    (name : String) (kind : DeclarationKind) (span : Span) :
    declareIn home name kind span state =
      .ok state.graph.declarations.length (declared state home name kind span) := by
  unfold declareIn declared
  rw [bind_run (bind_declared inside name kind span)]
  cases previous : state.graph.latest? home name with
  | none => rfl
  | some number =>
    have listed : number < state.graph.declarations.length := by
      obtain ⟨own, isOwn, last⟩ := Option.bind_eq_some_iff.mp previous
      rw [filed.listed home own isOwn name] at last
      exact List.mem_range.mp (List.mem_of_mem_filter (List.mem_of_getLast? last))
    have own := List.getElem?_eq_getElem inside
    obtain ⟨scope, found, same, -⟩ : ∃ scope : Scope,
        (state.graph.declare home name kind span (state.seq + 1)).scopes[home]? = some scope ∧
          scope.kind = state.graph.scopes[home].kind ∧ _ := getElem_declare own _ _ _ _
    have given : (state.graph.declare home name kind span (state.seq + 1)).scope home =
        .ok scope := by rw [ScopeGraph.scope, found]
    change (demand ((state.graph.declare home name kind span (state.seq + 1)).scope home) >>=
      fun scope => _) _ = _
    rw [given, own, Option.any_some, ← same]
    change (if scope.kind ≠ ScopeKind.root then _ else _ : Walk DeclarationId) _ = _
    by_cases isRoot : scope.kind = .root
    · rw [if_neg (not_not_intro isRoot)]
      simp only [isRoot, decide_true, if_true]
      rfl
    · rw [if_pos isRoot]
      simp only [isRoot, decide_false, Bool.false_eq_true, if_false]
      rw [bind_run (updateDeclaration_run (by simpa using Nat.lt_succ_of_lt listed) _)]
      rfl

theorem home_inside (ready : Ready numbering place state) (home : Home) :
    numbering.scopes (home.at place) < state.graph.scopes.length := by
  have inside := ready.inside
  have root : numbering.scopes ScopeGraph.root < state.graph.scopes.length := by
    rw [(numbering.rooted ScopeGraph.root).mpr rfl]
    exact Nat.zero_lt_of_lt inside
  cases home with
  | here => exact inside
  | root => exact root
  | function isLocal =>
    rw [Home.at]
    split
    · exact root
    · exact inside

theorem filed_declared (filed : state.graph.Filed) (inside : home < state.graph.scopes.length)
    (name : String) (kind : DeclarationKind) (span : Span) :
    (declared state home name kind span).graph.Filed := by
  have made := filed.declare inside name kind span (state.seq + 1)
  unfold declared
  split
  · split
    · exact made
    · exact made.redeclare (map_modify fun _ => rfl)
  · exact made

theorem Note.filed_declare (filed : state.graph.Filed) {naming : Naming}
    (inside : numbering.scopes naming.home < state.graph.scopes.length) :
    ((Note.declare naming).replay numbering state).graph.Filed := by
  have made := filed_declared filed inside naming.name naming.kind naming.span
  unfold Note.replay
  dsimp only
  split
  · exact made.redeclare (map_modify fun _ => rfl)
  · exact made

theorem replays_refer (name : Token) (isCall isRead isWrite : Bool) (stamp : Nat) :
    Replays numbering place (refer name isCall isRead isWrite)
      [.refer ⟨stamp, place⟩ name isCall isRead isWrite] () := by
  intro state ready _
  refine ⟨?_, ready.filed⟩
  rw [replay_cons, replay_nil, Note.replay, ready.deferred, ← ready.here]
  rfl

theorem replays_declareAt
    (within : ∀ state, Ready numbering place state →
      numbering.scopes home < state.graph.scopes.length)
    (id : DeclarationId) (stamp : Nat) (name : String) (kind : DeclarationKind) (span : Span) :
    Replays numbering place (declareIn (numbering.scopes home) name kind span)
      [.declare ⟨id, stamp, home, name, kind, span, false⟩] (numbering.declarations id) := by
  intro state ready numbers
  have inside := within state ready
  have number : numbering.declarations id = state.graph.declarations.length :=
    counts_single.mp numbers.declarations
  rw [declareIn_run ready.filed inside, number]
  exact ⟨rfl, filed_declared ready.filed inside name kind span⟩

theorem replays_find (home : Home) :
    Replays numbering place home.find [] (numbering.scopes (home.at place)) :=
  fun _ ready _ => ⟨find_run ready home, ready.filed⟩

theorem replays_declareIn (home : Home) (id : DeclarationId) (stamp : Nat) (name : String)
    (kind : DeclarationKind) (span : Span) :
    Replays numbering place (do declareIn (← home.find) name kind span)
      [.declare ⟨id, stamp, home.at place, name, kind, span, false⟩]
      (numbering.declarations id) :=
  (replays_find home).bind
    (replays_declareAt (fun _ ready => home_inside ready home) id stamp name kind span)

theorem replays_excuse (name : Token) (id : DeclarationId) (stamp : Nat) :
    Replays numbering place
      (do
        let id ← declare name .parameter
        updateDeclaration id ({ · with quiet := true }))
      [.declare ⟨id, stamp, place.here, name.text, .parameter, name.span, true⟩] () := by
  intro state ready numbers
  have inside := home_inside ready .here
  have ran : declare name .parameter state = .ok state.graph.declarations.length
      (declared state (numbering.scopes place.here) name.text .parameter name.span) := by
    change declareIn state.scope _ _ _ state = _
    rw [ready.here]
    exact declareIn_run ready.filed inside name.text .parameter name.span
  have filed : ((Note.declare ⟨id, stamp, place.here, name.text, .parameter, name.span,
      true⟩).replay numbering state).graph.Filed := Note.filed_declare ready.filed inside
  rw [bind_run ran, updateDeclaration_run (by simp)]
  exact ⟨rfl, filed⟩

theorem tabulate_run (table : Option ScopeId)
    (inside : numbering.declarations id < state.graph.declarations.length) :
    updateDeclaration (numbering.declarations id)
        ({ · with tableScope := table.map numbering.scopes }) state =
      .ok () (replay numbering [.tabulate id table] state) :=
  updateDeclaration_run inside _

theorem Ready.defer (ready : Ready numbering place state) :
    Ready numbering { place with deferred := true }
      (state.standing state.scope (state.functionDepth + 1)) :=
  ⟨ready.filed, ready.here, by simp [State.standing], ready.found⟩

theorem replays_deferring {walk : Walk Unit}
    (inside : Replays numbering { place with deferred := true } walk notes ()) :
    Replays numbering place (deferring walk) notes () := by
  intro state ready numbers
  have kept := outlasts_replay numbering notes state
  obtain ⟨ran, filed⟩ := inside _ ready.defer
    ⟨numbers.scopes, numbers.declarations, numbers.stamps⟩
  rw [replay_standing] at ran filed
  refine ⟨?_, filed⟩
  change (walk >>= fun _ => modify fun state =>
    { state with functionDepth := state.functionDepth - 1 })
      (state.standing state.scope (state.functionDepth + 1)) = _
  rw [bind_run ran, ← kept.scope, ← kept.depth]
  rfl

theorem Ready.enter (ready : Ready numbering place state) (kind : ScopeKind) {id : ScopeId}
    (number : numbering.scopes id = state.graph.scopes.length) :
    Ready numbering (place.enter id false) (state.entering kind) := by
  refine ⟨ready.filed.addScope kind _, number.symm, ?_, ?_⟩
  · rw [Place.enter, Bool.or_false]
    exact ready.deferred
  · rw [Place.enter, number]
    exact ⟨_, List.getElem?_concat_length, congrArg some ready.here⟩

theorem replays_inScope {α : Type} (kind : ScopeKind) (id : ScopeId) {walk : ScopeId → Walk α}
    {value : α}
    (inside : Replays numbering (place.enter id false) (walk (numbering.scopes id)) notes value) :
    Replays numbering place (inScope kind walk) (.scope id kind place.here :: notes) value := by
  intro state ready numbers
  have both : Numbers numbering state ([.scope id kind place.here] ++ notes) := numbers
  obtain ⟨first, rest⟩ := (numbers_append numbering).mp both
  have number : numbering.scopes id = state.graph.scopes.length := counts_single.mp first.scopes
  have entered := (Note.scope id kind place.here).outlasts numbering state
  have kept := outlasts_replay numbering notes ((Note.scope id kind place.here).replay numbering state)
  have same : state.entering kind =
      ((Note.scope id kind place.here).replay numbering state).standing (numbering.scopes id)
        state.functionDepth := by
    rw [number, State.entering, ready.here]
    rfl
  have inner := ready.enter kind number
  rw [same] at inner
  obtain ⟨ran, filed⟩ := inside _ inner ⟨rest.scopes, rest.declarations, rest.stamps⟩
  rw [replay_standing] at ran filed
  refine ⟨?_, filed⟩
  rw [inScope_run, same, ← number, ran, replay_cons]
  dsimp only
  rw [← entered.scope, ← entered.depth, ← kept.scope, ← kept.depth]
  rfl

def Follows (numbering : Numbering) (walk : Visitor) (trail : Trail) : Prop :=
  ∀ tree place notes table, trail tree place notes table →
    Replays numbering place (walk tree) notes (table.map numbering.scopes)

variable {walk : Visitor} {trail : Trail} {table : Option ScopeId}

theorem replays_value (follows : Follows numbering walk trail) {value? : Option Tree}
    (valued : ValueLeaves trail place value? notes table) :
    Replays numbering place (tableOf walk value?) notes (table.map numbering.scopes) := by
  cases valued with
  | none => exact replays_pure none
  | some walked => exact follows _ _ _ _ walked

theorem replays_bind (home : Home) (name : Token) (kind : DeclarationKind) (id : DeclarationId)
    (stamp : Nat) (table : Option ScopeId) :
    Replays numbering place
      (do
        let id ← declareIn (← home.find) name.text kind name.span
        updateDeclaration id ({ · with tableScope := table.map numbering.scopes }))
      [.declare ⟨id, stamp, home.at place, name.text, kind, name.span, false⟩, .tabulate id table]
      () := by
  intro state ready numbers
  have both : Numbers numbering state ([.declare ⟨id, stamp, home.at place, name.text, kind,
    name.span, false⟩] ++ [.tabulate id table]) := numbers
  obtain ⟨first, -⟩ := (numbers_append numbering).mp both
  obtain ⟨ran, filed⟩ := replays_declareIn home id stamp name.text kind name.span state ready first
  have number : numbering.declarations id = state.graph.declarations.length :=
    counts_single.mp first.declarations
  have inside : numbering.declarations id < (replay numbering [.declare ⟨id, stamp, home.at place,
      name.text, kind, name.span, false⟩] state).graph.declarations.length := by
    rw [declarations_replay, number]
    exact Nat.lt_add_of_pos_right Nat.one_pos
  refine ⟨?_, filed.redeclare (map_modify fun _ => rfl)⟩
  rw [← bind_assoc, bind_run ran]
  exact tabulate_run table inside

mutual

theorem replays_act (follows : Follows numbering walk trail) :
    (act : Act) → ∀ {place notes}, act.Leaves trail place notes →
      Replays numbering place (act.play walk) notes ()
  | .walk tree, _, _, leaves => by
    cases leaves with
    | walk walked => exact (follows _ _ _ _ walked).andThen (replays_pure ())
  | .refer name isCall isRead isWrite, _, _, leaves => by
    cases leaves
    exact replays_refer _ _ _ _ _
  | .declare home name kind, place, _, leaves => by
    cases leaves with
    | declare _ _ _ _ id stamp =>
      have played : Replays numbering place
          ((do declareIn (← home.find) name.text kind name.span) >>= fun _ => pure ()) _ () :=
        (replays_declareIn home id stamp name.text kind name.span).andThen (replays_pure ())
      rwa [bind_assoc] at played
  | .excuse name, _, _, leaves => by
    cases leaves
    exact replays_excuse _ _ _
  | .bind home name kind value?, _, _, leaves => by
    cases leaves with
    | bind _ _ _ id stamp valued =>
      rw [Act.play]
      refine (replays_value follows valued).bind ?_
      exact replays_bind home name kind id stamp _
  | .recover tokens, _, _, leaves => by cases leaves
  | .within enclosure later acts, _, _, leaves => by
    cases leaves with
    | within _ _ id inside =>
      rw [Act.play]
      refine replays_inScope enclosure.kind id ?_
      have played := replays_acts follows acts inside
      cases later with
      | false => exact played
      | true =>
        refine replays_deferring ?_
        rw [Place.enter, Bool.or_true] at played
        exact played
  | .fail label, _, _, leaves => by cases leaves

theorem replays_acts (follows : Follows numbering walk trail) :
    (acts : List Act) → ∀ {place notes}, LeaveAll trail acts place notes →
      Replays numbering place (playAll walk acts) notes ()
  | [], _, _, leaves => by
    cases leaves
    exact replays_pure ()
  | act :: acts, _, _, leaves => by
    cases leaves with
    | cons first rest => exact (replays_act follows act first).bind (replays_acts follows acts rest)

end

variable {firsts : List (List Note)} {entries : List Tree}

theorem replays_slots (leaves : List.Forall₂ (SlotLeaves place) entries firsts) :
    Replays numbering place (declareSlots (numbering.scopes place.here) entries) firsts.flatten
      (entries.zip (firsts.map fun notes => (slotOf notes).map numbering.declarations)) := by
  induction leaves with
  | nil => exact replays_pure []
  | @cons entry notes entries firsts first _ ih =>
    rw [declareSlots, List.flatten_cons, List.map_cons, List.zip_cons_cons]
    cases first with
    | named id stamp isNamed =>
      rw [isNamed]
      refine Replays.bind ?_ (ih.andThen (replays_pure _))
      rw [map_eq_pure_bind]
      exact (replays_declareAt (fun _ ready => ready.inside) id stamp _ _ _).andThen
        (replays_pure _)
    | unnamed noName =>
      rw [noName]
      exact Replays.bind (replays_pure none) (ih.andThen (replays_pure _))

theorem filling_run (follows : Follows numbering walk trail) {filling : Filling}
    {slot : Option DeclarationId} (leaves : filling.Leaves trail place slot notes)
    (ready : Ready numbering place state) (numbers : Numbers numbering state notes)
    (there : ∀ id ∈ slot, numbering.declarations id < state.graph.declarations.length) :
    filling.play walk (slot.map numbering.declarations) state =
        .ok () (replay numbering notes state) ∧
      (replay numbering notes state).graph.Filed := by
  cases leaves with
  | acts slot played => exact replays_acts follows _ played state ready numbers
  | @value tree notes table id walked =>
    obtain ⟨early, -⟩ := (numbers_append numbering).mp numbers
    obtain ⟨ran, filed⟩ := follows _ _ _ _ walked state ready early
    have inside : numbering.declarations id <
        (replay numbering notes state).graph.declarations.length := by
      rw [declarations_replay]
      exact Nat.lt_add_right _ (there id rfl)
    rw [replay_append]
    refine ⟨?_, filed.redeclare (map_modify fun _ => rfl)⟩
    rw [Filling.play, bind_run ran]
    exact tabulate_run table inside

variable {blocks : List (List Note × List Note)}

theorem fillAll_run (follows : Follows numbering walk trail)
    (leaves : List.Forall₂ (EntryLeaves trail place) entries blocks)
    (ready : Ready numbering place state)
    (numbers : Numbers numbering state (blocks.flatMap (·.2)))
    (there : ∀ block ∈ blocks, ∀ id ∈ slotOf block.1,
      numbering.declarations id < state.graph.declarations.length) :
    fillAll walk (entries.zip (blocks.map fun block =>
        (slotOf block.1).map numbering.declarations)) state =
        .ok () (replay numbering (blocks.flatMap (·.2)) state) ∧
      (replay numbering (blocks.flatMap (·.2)) state).graph.Filed := by
  induction leaves generalizing state with
  | nil => exact ⟨rfl, ready.filed⟩
  | @cons entry block entries blocks first _ ih =>
    obtain ⟨own, others⟩ := List.forall_mem_cons.mp there
    rw [List.flatMap_cons] at numbers ⊢
    obtain ⟨early, late⟩ := (numbers_append numbering).mp numbers
    obtain ⟨ran, filed⟩ := filling_run follows first.filled ready early own
    rw [List.map_cons, List.zip_cons_cons, fillAll, bind_run ran, replay_append]
    refine ih (ready.replay filed) late fun other member id isSlot => ?_
    rw [declarations_replay]
    exact Nat.lt_add_right _ (others other member id isSlot)

theorem Counts.bounds {number : Nat → Nat} {first name : Nat} {names : List Nat}
    (counts : Counts number first names) (member : name ∈ names) :
    first ≤ number name ∧ number name < first + names.length := by
  have listed : number name ∈ names.map number := List.mem_map_of_mem member
  rw [counts, List.mem_range'_1] at listed
  exact listed

theorem mem_slots (member : notes ∈ firsts) (isSlot : id ∈ slotOf notes) :
    id ∈ (namings firsts.flatten).map (·.id) := by
  obtain ⟨naming, first, rfl⟩ := Option.map_eq_some_iff.mp isSlot
  obtain ⟨note, isNote, named⟩ := List.mem_filterMap.mp (List.mem_of_head? first)
  exact List.mem_map_of_mem (List.mem_filterMap.mpr
    ⟨note, List.mem_flatten.mpr ⟨notes, member, isNote⟩, named⟩)

theorem slot_inside (numbers : Numbers numbering state firsts.flatten) (member : notes ∈ firsts)
    (isSlot : id ∈ slotOf notes) :
    numbering.declarations id <
      (replay numbering firsts.flatten state).graph.declarations.length := by
  have bounds := numbers.declarations.bounds (mem_slots member isSlot)
  rw [List.length_map] at bounds
  rw [declarations_replay]
  exact bounds.2

theorem replays_table (follows : Follows numbering walk trail)
    (leaves : List.Forall₂ (EntryLeaves trail place) entries blocks) :
    Replays numbering place
      (do
        fillAll walk (← declareSlots (numbering.scopes place.here) entries)
        return some (numbering.scopes place.here))
      (blocks.flatMap (·.1) ++ blocks.flatMap (·.2)) (some (numbering.scopes place.here)) := by
  intro state ready numbers
  have slots : List.Forall₂ (SlotLeaves place) entries (blocks.map (·.1)) :=
    List.forall₂_map_right_iff.mpr (leaves.imp fun _ _ entry => entry.slot)
  have same : blocks.flatMap (·.1) = (blocks.map (·.1)).flatten := List.flatMap_def
  rw [same] at numbers ⊢
  obtain ⟨early, late⟩ := (numbers_append numbering).mp numbers
  obtain ⟨declares, filed⟩ := replays_slots slots state ready early
  obtain ⟨fills, filedLater⟩ := fillAll_run follows leaves (ready.replay filed) late
    fun block member id isSlot => slot_inside early (List.mem_map_of_mem member) isSlot
  rw [replay_append]
  refine ⟨?_, filedLater⟩
  rw [bind_run declares, List.map_map]
  exact bind_run fills

theorem replays_ending (follows : Follows numbering walk trail) {ending : Ending}
    (leaves : ending.Leaves trail place notes table) :
    Replays numbering place (ending.play walk) notes (table.map numbering.scopes) := by
  cases leaves with
  | nothing => exact replays_pure none
  | value walked => exact follows _ _ _ _ walked
  | table id filled =>
    rw [Ending.play]
    exact replays_inScope .table id (replays_table follows filled)
  | @inherit base body notes table stamp walked =>
    rw [Ending.play]
    refine (follows _ _ _ _ walked).bind ?_
    intro state ready _
    refine ⟨?_, ready.filed⟩
    rw [replay_cons, replay_nil, Note.replay, ready.deferred, ← ready.here]
    rfl

theorem replays_script (follows : Follows numbering walk trail) {script : Script}
    (leaves : script.Leaves trail place notes table) :
    Replays numbering place (script.play walk) notes (table.map numbering.scopes) := by
  cases leaves with
  | mk played ended =>
    exact (replays_acts follows _ played).bind (replays_ending follows ended)

theorem follows_walk (numbering : Numbering) (levels : Nat) :
    Follows numbering (Analysis.walk levels) (Leaves levels) := by
  induction levels with
  | zero =>
    intro tree place notes table leaves
    cases tree with
    | leaf token =>
      obtain ⟨rfl, rfl⟩ := leaves
      exact replays_pure none
    | node label children => exact leaves.elim
  | succ levels ih =>
    intro tree place notes table leaves
    cases tree with
    | leaf token =>
      obtain ⟨rfl, rfl⟩ := leaves
      exact replays_pure none
    | node label children =>
      obtain ⟨fitting, scripted⟩ := leaves
      rw [walk_node, if_pos fitting]
      exact replays_script ih scripted

end Running

end Squirrel.Analysis
