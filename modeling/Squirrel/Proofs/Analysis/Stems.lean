import Squirrel.Proofs.Analysis.Rearranged

/-! What the notes of a tree speak of: scopes of its own, and those around it. -/

namespace Squirrel.Analysis

variable {act : Tree → Act}

section Homes

variable (rule : Home → DeclarationKind → Bool)

mutual

@[simp] def Act.obeys : Act → Bool
  | .declare home _ kind | .bind home _ kind _ => rule home kind
  | .excuse _ => rule .here .parameter
  | .within _ _ acts => obeyAll acts
  | .walk _ | .refer _ _ _ _ | .recover _ | .fail _ => true

def obeyAll : List Act → Bool
  | [] => true
  | act :: acts => act.obeys && obeyAll acts

end

/-- A rule that allows names in all places but the root, and there what a label has to declare. -/
structure Allows (label : Label) : Prop where
  here : ∀ kind, rule .here kind
  function : ∀ isLocal, rule (.function isLocal) .function
  slot : label = .newSlot → rule .root .tableSlot
  constant : label = .constDeclaration → rule .root .constant

variable {rule}

@[simp] theorem obeyAll_nil : obeyAll rule [] := rfl

@[simp] theorem obeyAll_cons (act : Act) (acts : List Act) :
    obeyAll rule (act :: acts) = (act.obeys rule && obeyAll rule acts) := rfl

@[simp] theorem obeyAll_append (first second : List Act) :
    obeyAll rule (first ++ second) = (obeyAll rule first && obeyAll rule second) := by
  induction first with
  | nil => simp
  | cons act first ih => simp [ih, Bool.and_assoc]

theorem obeyAll_iff {acts : List Act} : obeyAll rule acts ↔ ∀ act ∈ acts, act.obeys rule := by
  induction acts with
  | nil => simp
  | cons act acts ih => simp [ih]

theorem obeyAll_map (each : ∀ tree, (act tree).obeys rule) (trees : List Tree) :
    obeyAll rule (trees.map act) :=
  obeyAll_iff.mpr (List.forall_mem_map.mpr fun tree _ => each tree)

theorem obeyAll_flatMap {acts : Tree → List Act} (each : ∀ tree, obeyAll rule (acts tree))
    (trees : List Tree) : obeyAll rule (trees.flatMap acts) := by
  induction trees with
  | nil => simp
  | cons tree trees ih => simp [each, ih]

@[simp] theorem obeys_walk (tree : Tree) : (Act.walk tree).obeys rule := rfl

@[simp] theorem obeyAll_walks (trees : List Tree) : obeyAll rule (trees.map .walk) :=
  obeyAll_map obeys_walk trees

@[simp] theorem obeyAll_body (tree : Tree) : obeyAll rule (bodyActs tree) := by
  unfold bodyActs
  split <;> simp

@[simp] theorem obeys_nested (tree : Tree) : (nestedAct tree).obeys rule := by
  rw [nestedAct, Act.obeys, obeyAll_body]

theorem MeetsName.obeys (meets : MeetsName act) (tree : Tree) : (act tree).obeys rule := by
  rcases meets tree with walks | ⟨name, _, _, _, -, refers⟩
  · rw [walks, Act.obeys]
  · rw [refers, Act.obeys]

section Allowed

variable {label : Label} (allows : Allows rule label)

include allows

theorem obeys_parameter (parameter : Tree) : obeyAll rule (parameterActs parameter) := by
  unfold parameterActs
  split
  · rw [obeyAll_append, obeyAll_walks, Bool.and_true]
    split
    · simp [allows.here]
    · simp
  · simp

theorem obeys_function (parameters body : Tree) (hook? : Option Token) :
    (functionAct parameters body hook?).obeys rule := by
  have hooked : obeyAll rule (hook?.toList.map fun hook => .declare .here hook .hookParameter) =
      true := by
    cases hook? <;> simp [allows.here]
  rw [functionAct, Act.obeys, obeyAll_append, obeyAll_append, hooked, obeyAll_body,
    obeyAll_flatMap (obeys_parameter allows)]
  rfl

theorem obeys_variable (declarator : Tree) : (variableAct declarator).obeys rule := by
  unfold variableAct
  split
  · rw [Act.obeys, allows.here]
  · rw [Act.obeys]

theorem obeys_functionDeclaration (children : List Tree) :
    obeyAll rule (functionDeclarationActs children) := by
  have named (isLocal : Bool) (name : Tree) : obeyAll rule (functionNameActs isLocal name) := by
    unfold functionNameActs
    split
    · simp [allows.function]
    · split <;> simp
    · simp
  unfold functionDeclarationActs
  split
  · simp [named, obeys_function allows]
  · simp

theorem obeys_foreachName (name : Tree) : obeyAll rule (foreachNameActs name) := by
  unfold foreachNameActs
  split
  · split <;> simp [allows.here]
  · simp

omit allows in
theorem obeys_switchClause (clause : Tree) : obeyAll rule (switchClauseActs clause) := by
  unfold switchClauseActs
  split <;> simp

theorem obeys_newSlot (isSlot : label = .newSlot) (target value : Tree) :
    obeyAll rule (newSlotActs target value) := by
  unfold newSlotActs
  split <;> simp [allows.slot isSlot]

theorem obeys_plain (children : List Tree) : obeyAll rule (plainActs label children) := by
  have function := obeys_function allows
  have clauses := obeyAll_flatMap (@obeys_switchClause rule)
  have names := obeyAll_flatMap (obeys_foreachName allows)
  have nested := obeyAll_map (@obeys_nested rule)
  unfold plainActs
  split
  case h_4 => exact obeyAll_map (obeys_variable allows) _
  case h_5 => simp [allows.constant rfl]
  case h_6 => exact obeys_functionDeclaration allows children
  case h_18 => exact obeys_newSlot allows rfl _ _
  case h_15 | h_16 => simp [(update_meets _).obeys]
  case h_17 => simp [(target_meets _).obeys]
  case h_19 => split <;> simp
  case h_20 => simp [callee_meets.obeys]
  case h_23 => split <;> simp [function, Act.obeys]
  all_goals simp [function, clauses, names, nested, allows.here]

end Allowed

end Homes

section Values

/-- Labels of trees that declare nothing in the scope where they stand, newly made slots apart. -/
def valueLabels : List Label := .arguments :: expressionLabels

def isValue (tree : Tree) : Prop := ∀ label, tree.label? = some label → label ∈ valueLabels

def Act.opens : Act → Bool
  | .declare .. | .excuse .. | .bind .. => true
  | _ => false

/-- An act that declares nothing where it stands, and walks over one of some trees at most. -/
def Act.isShut (trees : List Tree) (act : Act) : Prop :=
  act.opens = false ∧ ∀ tree, act = .walk tree → tree ∈ trees

variable {label : Label} {children : List Tree}

theorem MeetsName.isShut (meets : MeetsName act) {tree : Tree} {trees : List Tree}
    (member : tree ∈ trees) : (act tree).isShut trees := by
  rcases meets tree with walks | ⟨name, _, _, _, -, refers⟩
  · rw [walks]
    exact ⟨rfl, fun other same => by cases same; exact member⟩
  · rw [refers]
    exact ⟨rfl, fun other same => by cases same⟩

theorem shut_walk {tree : Tree} {trees : List Tree} (member : tree ∈ trees) :
    (Act.walk tree).isShut trees := ⟨rfl, fun other same => by cases same; exact member⟩

theorem shut_function (parameters body : Tree) (hook? : Option Token) (trees : List Tree) :
    (functionAct parameters body hook?).isShut trees := ⟨rfl, fun other same => by cases same⟩

def closureLabels : List Label := [.functionLiteral, .lambdaLiteral, .hookWrapper]

section

variable (sound : Sound (.node label children))

include sound

theorem Sound.closure (closes : label ∈ closureLabels) :
    ∃ parameters body hook?, plainActs label children = [functionAct parameters body hook?] := by
  have fitting := Tree.admits_of_isShaped sound.shaped
  simp only [Tree.admits, Bool.and_eq_true] at fitting
  have three {kinds : List Bool} (length : children.map (·.isNode) = kinds) (many : kinds.length = 3) :
      ∃ first second third, children = [first, second, third] := by
    rcases children with _ | ⟨first, _ | ⟨second, _ | ⟨third, _ | ⟨_, _⟩⟩⟩⟩
    case cons.cons.cons.nil => exact ⟨first, second, third, rfl⟩
    all_goals
      subst length
      simp at many
  simp only [closureLabels, List.mem_cons, List.not_mem_nil, or_false] at closes
  rcases closes with rfl | rfl | rfl
  · obtain ⟨_, _, _, rfl⟩ := three (of_decide_eq_true fitting.1) rfl
    exact ⟨_, _, none, rfl⟩
  · obtain ⟨_, _, _, rfl⟩ := three (of_decide_eq_true fitting.1) rfl
    exact ⟨_, _, none, rfl⟩
  · obtain ⟨sign, list, keyword, inner, body, rfl, -⟩ := hook_shape sound.shaped
    obtain ⟨hook, named⟩ := hook_named sound.shaped
    exact ⟨inner, body, some hook, by simp only [plainActs, named]⟩

theorem Sound.shut (listed : label ∈ valueLabels) (noSlot : label ≠ .newSlot) :
    ∀ act ∈ plainActs label children,
      act.isShut (if label ∈ closureLabels then [] else children) := by
  by_cases closes : label ∈ closureLabels
  · obtain ⟨parameters, body, hook?, same⟩ := sound.closure closes
    rw [same, List.forall_mem_singleton]
    exact shut_function _ _ _ _
  rw [if_neg closes]
  have walks : ∀ act ∈ (children.filter (·.isNode)).map Act.walk, act.isShut children :=
    List.forall_mem_map.mpr fun tree member => shut_walk (List.mem_filter.mp member).1
  unfold plainActs
  split
  case h_15 | h_16 =>
    rw [List.forall_mem_singleton]
    exact (update_meets _).isShut (by simp)
  case h_17 =>
    rw [List.forall_mem_cons, List.forall_mem_singleton]
    exact ⟨shut_walk (by simp), (target_meets _).isShut (by simp)⟩
  case h_18 => exact absurd rfl noSlot
  case h_19 =>
    split
    · simp
    · rw [List.forall_mem_singleton]
      exact shut_walk (by simp)
  case h_20 =>
    rw [List.forall_mem_cons, List.forall_mem_singleton]
    exact ⟨callee_meets.isShut (by simp), shut_walk (by simp)⟩
  case h_3 | h_14 =>
    rw [List.forall_mem_singleton]
    exact ⟨rfl, fun tree same => by cases same⟩
  case h_21 | h_22 | h_23 => exact absurd (by decide) closes
  case h_1 | h_2 | h_4 | h_5 | h_6 | h_7 | h_8 | h_9 | h_10 | h_11 | h_12 | h_13 =>
    exact absurd listed (by decide)
  all_goals first
    | exact walks
    | exact List.forall_mem_nil _

theorem Sound.areValues (parts : ∀ part ∈ label.parts, part ∈ valueLabels) :
    ∀ child ∈ children, isValue child := by
  intro child member own isOwn
  have isNode : child.isNode := by
    cases child with
    | leaf token => cases isOwn
    | node => rfl
  obtain ⟨part, isPart, same⟩ := sound.part rfl member isNode
  cases isOwn.symm.trans same
  exact parts own isPart

theorem Sound.values (listed : label ∈ valueLabels) (lasting : label ∉ closureLabels)
    (plain : label ≠ .table) : ∀ child ∈ children, isValue child := by
  refine sound.areValues ?_
  revert listed lasting plain
  cases label <;> decide

end

end Values

section Stems

def barred (loose : Bool) : List Label :=
  if loose then [.inheritCall] else [.inheritCall, .newSlot, .constDeclaration]

def avoids (labels : List Label) (tree : Tree) : Bool :=
  tree.everywhere fun label _ => !labels.contains label

def Kin (loose : Bool) (tree other : Tree) : Prop :=
  other = tree ∧ Sound tree ∧ avoids (barred loose) tree

theorem tracks_kin (loose : Bool) : Tracks (Kin loose) := by
  refine .of_children (fun like => like.1) (fun {label children tree} like => ?_)
    (fun like => like.2.1.composed) (fun like => like.2.1.shaped)
  obtain ⟨rfl, sound, without⟩ := like
  rw [avoids, Tree.everywhere_node, Bool.and_eq_true, Tree.everywhereOf_iff] at without
  refine ⟨children, rfl, fun _ => List.forall₂_same.mpr fun child member => ?_⟩
  exact ⟨rfl, sound.child child member, without.2 child member⟩

theorem Kin.label_not_mem {loose : Bool} {label : Label} {children : List Tree} {other : Tree}
    (kin : Kin loose (.node label children) other) : label ∉ barred loose := by
  have without := kin.2.2
  rw [avoids, Tree.everywhere_node, Bool.and_eq_true] at without
  simpa using without.1

def isUncounted (kind : DeclarationKind) : Bool := kind ≠ .localVariable && kind ≠ .parameter

def settles (loose : Bool) (home : Home) (kind : DeclarationKind) : Bool :=
  match home with
  | .here => true
  | .root => loose && isUncounted kind
  | .function _ => isUncounted kind

theorem allows_settles {loose : Bool} {label : Label} (free : label ∉ barred loose) :
    Allows (settles loose) label where
  here _ := rfl
  function _ := rfl
  slot isSlot := by
    subst isSlot
    cases loose with
    | true => rfl
    | false => exact absurd (by decide) free
  constant isConstant := by
    subst isConstant
    cases loose with
    | true => rfl
    | false => exact absurd (by decide) free

/-- What a note speaks of: scopes of its own, those of a chain, and some declarations. -/
def Note.Stems (loose : Bool) (own chain : List ScopeId) (ids : List DeclarationId) : Note → Prop
  | .scope _ _ _ => True
  | .declare naming => naming.home ∈ own ∨
    (loose ∧ naming.home = ScopeGraph.root ∧ isUncounted naming.kind)
  | .tabulate id _ => id ∈ ids
  | .refer use _ _ _ _ => use.place.chain ⊆ own ++ chain ∧ (loose → use.place.deferred)
  | .inherit _ _ _ => False

structure Below (loose : Bool) (own chain : List ScopeId) (place : Place) : Prop where
  chain : place.chain ⊆ own ++ chain
  fresh : ScopeGraph.root ∉ own
  away : loose = false → place.here ≠ ScopeGraph.root ∧ place.around.head? ≠ some ScopeGraph.root
  late : loose → place.deferred

structure Brings (own : List ScopeId) (ids : List DeclarationId) (notes : List Note) : Prop where
  scopes : scopeIds notes ⊆ own
  declarations : (namings notes).map (·.id) ⊆ ids

variable {loose : Bool} {own chain : List ScopeId} {ids : List DeclarationId} {place : Place}
  {notes others : List Note} {trail : Trail}

theorem brings_append : Brings own ids (notes ++ others) ↔
    Brings own ids notes ∧ Brings own ids others := by
  constructor
  · rintro ⟨scopes, declarations⟩
    rw [scopeIds_append, List.append_subset] at scopes
    rw [namings_append, List.map_append, List.append_subset] at declarations
    exact ⟨⟨scopes.1, declarations.1⟩, scopes.2, declarations.2⟩
  · rintro ⟨⟨scopes, declarations⟩, moreScopes, moreDeclarations⟩
    refine ⟨?_, ?_⟩
    · rw [scopeIds_append, List.append_subset]
      exact ⟨scopes, moreScopes⟩
    · rw [namings_append, List.map_append, List.append_subset]
      exact ⟨declarations, moreDeclarations⟩

theorem brings_cons {note : Note} : Brings own ids (note :: notes) ↔
    Brings own ids [note] ∧ Brings own ids notes :=
  @brings_append own ids [note] notes

theorem Brings.subset (brings : Brings own ids notes) (less : others ⊆ notes) :
    Brings own ids others :=
  ⟨List.Subset.trans (List.filterMap_subset _ less) brings.scopes,
    List.Subset.trans (List.map_subset _ (List.filterMap_subset _ less)) brings.declarations⟩

theorem Below.enter (below : Below loose own chain place) {id : ScopeId} (isOwn : id ∈ own)
    (later : Bool) : Below loose own chain (place.enter id later) where
  chain := List.cons_subset.mpr ⟨List.mem_append_left _ isOwn, below.chain⟩
  fresh := below.fresh
  away strict := by
    refine ⟨fun isRoot => below.fresh (isRoot ▸ isOwn), fun isRoot => ?_⟩
    exact (below.away strict).1 (Option.some.inj isRoot)
  late isLoose := by
    rw [Place.enter, below.late isLoose]
    rfl

def Stemming (loose : Bool) (trail : Trail) : Prop :=
  ∀ tree place notes table own chain ids, Kin loose tree tree → Below loose own chain place →
    (place.here ∈ own ∨ loose = false ∧ isValue tree) → Brings own ids notes →
    trail tree place notes table → ∀ note ∈ notes, note.Stems loose own chain ids

theorem stems_declare (below : Below loose own chain place) (here : place.here ∈ own) {home : Home}
    {kind : DeclarationKind} (allowed : settles loose home kind) (id : DeclarationId)
    (stamp : Nat) (name : String) (span : Span) (excused : Bool) :
    (Note.declare ⟨id, stamp, home.at place, name, kind, span, excused⟩).Stems loose own chain ids := by
  cases home with
  | here => exact .inl here
  | root =>
    obtain ⟨isLoose, uncounted⟩ := Bool.and_eq_true_iff.mp allowed
    exact .inr ⟨isLoose, rfl, uncounted⟩
  | function isLocal =>
    cases isLoose : loose with
    | true =>
      by_cases outermost : place.around.head? = some ScopeGraph.root ∧ !isLocal
      · exact .inr ⟨rfl, if_pos outermost, allowed⟩
      · rw [Home.at, if_neg outermost]
        exact .inl here
    | false =>
      have inner := (below.away isLoose).2
      rw [Home.at, if_neg fun outermost => inner outermost.1]
      exact .inl here

theorem stems_value (stemming : Stemming loose trail) {value? : Option Tree}
    {table : Option ScopeId} (like : Option.Rel (Kin loose) value? value?)
    (below : Below loose own chain place) (here : place.here ∈ own) (brings : Brings own ids notes)
    (valued : ValueLeaves trail place value? notes table) :
    ∀ note ∈ notes, note.Stems loose own chain ids := by
  cases valued with
  | none => exact List.forall_mem_nil _
  | some walked =>
    cases like with
    | some like => exact stemming _ _ _ _ _ _ _ like below (.inl here) brings walked

mutual

theorem stems_act (stemming : Stemming loose trail) : (act : Act) → ∀ {place notes},
    ActLike (Kin loose) act act → act.obeys (settles loose) → Below loose own chain place →
    (place.here ∈ own ∨
      loose = false ∧ act.opens = false ∧ ∀ tree, act = .walk tree → isValue tree) →
    Brings own ids notes → act.Leaves trail place notes →
    ∀ note ∈ notes, note.Stems loose own chain ids
  | .walk tree, place, notes, like, _, below, here, brings, leaves => by
    cases like with
    | walk like =>
      cases leaves with
      | walk walked =>
        refine stemming _ _ _ _ _ _ _ like below (here.imp id fun shut => ?_) brings walked
        exact ⟨shut.1, shut.2.2 tree rfl⟩
  | .refer name isCall isRead isWrite, place, _, _, _, below, _, _, leaves => by
    cases leaves
    rw [List.forall_mem_singleton]
    exact ⟨below.chain, below.late⟩
  | .declare home name kind, place, _, _, obeys, below, here, _, leaves => by
    cases leaves
    rw [List.forall_mem_singleton]
    rw [Act.obeys] at obeys
    exact stems_declare below (here.resolve_right fun shut => nomatch shut.2.1) obeys _ _ _ _ _
  | .excuse name, place, _, _, _, below, here, _, leaves => by
    cases leaves
    rw [List.forall_mem_singleton]
    exact .inl (here.resolve_right fun shut => nomatch shut.2.1)
  | .bind home name kind value?, place, _, like, obeys, below, here, brings, leaves => by
    have inside := here.resolve_right fun shut => nomatch shut.2.1
    rw [Act.obeys] at obeys
    cases like with
    | bind _ _ _ like =>
      cases leaves with
      | bind _ _ _ id stamp valued =>
        obtain ⟨early, late⟩ := brings_append.mp brings
        rw [List.forall_mem_append]
        refine ⟨stems_value stemming like below inside early valued, ?_⟩
        rw [List.forall_mem_cons, List.forall_mem_singleton]
        exact ⟨stems_declare below inside obeys _ _ _ _ _, late.declarations (by simp)⟩
  | .recover tokens, _, _, _, _, _, _, _, leaves => nomatch leaves
  | .within _ later acts, place, _, like, obeys, below, _, brings, leaves => by
    rw [Act.obeys] at obeys
    cases like with
    | within _ _ like =>
      cases leaves with
      | within _ _ id inside =>
        obtain ⟨first, rest⟩ := brings_cons.mp brings
        have isOwn : id ∈ own := first.scopes (by simp)
        rw [List.forall_mem_cons]
        exact ⟨trivial, stems_acts stemming acts like obeys (below.enter isOwn later)
          (fun _ _ => .inl isOwn) rest inside⟩
  | .fail label, _, _, _, _, _, _, _, leaves => nomatch leaves

theorem stems_acts (stemming : Stemming loose trail) : (acts : List Act) → ∀ {place notes},
    ActsLike (Kin loose) acts acts → obeyAll (settles loose) acts →
    Below loose own chain place →
    (∀ act ∈ acts, place.here ∈ own ∨
      loose = false ∧ act.opens = false ∧ ∀ tree, act = .walk tree → isValue tree) →
    Brings own ids notes → LeaveAll trail acts place notes →
    ∀ note ∈ notes, note.Stems loose own chain ids
  | [], _, _, _, _, _, _, _, leaves => by
    cases leaves
    exact List.forall_mem_nil _
  | act :: acts, place, _, like, obeys, below, here, brings, leaves => by
    obtain ⟨first, rest⟩ := List.forall₂_cons.mp like
    obtain ⟨own, others⟩ := List.forall_mem_cons.mp here
    rw [obeyAll_cons, Bool.and_eq_true] at obeys
    cases leaves with
    | cons one more =>
      obtain ⟨early, late⟩ := brings_append.mp brings
      rw [List.forall_mem_append]
      exact ⟨stems_act stemming act first obeys.1 below own early one,
        stems_acts stemming acts rest obeys.2 below others late more⟩

end

section Entries

def Filling.obeys (rule : Home → DeclarationKind → Bool) : Filling → Bool
  | .acts own => obeyAll rule own
  | .value _ => true

def Filling.isShut : Filling → Prop
  | .acts own => ∀ act ∈ own, act.opens = false ∧ ∀ tree, act = .walk tree → isValue tree
  | .value tree => isValue tree

theorem obeys_filling (loose : Bool) (entry : Tree) : (filling entry).obeys (settles loose) := by
  have free : Label.table ∉ barred loose := by cases loose <;> decide
  have function := obeys_function (allows_settles free)
  unfold filling
  split <;> simp [Filling.obeys, Act.obeys, function]

variable {entry : Tree}

theorem Sound.isShut (sound : Sound entry) : (filling entry).isShut := by
  have closed (parameters body : Tree) :
      ∀ act ∈ [functionAct parameters body none], act.opens = false ∧
        ∀ tree, act = .walk tree → isValue tree := by
    rw [List.forall_mem_singleton]
    exact ⟨rfl, fun tree same => by cases same⟩
  unfold filling
  split
  · exact closed _ _
  · exact sound.areValues (by decide) _ (by simp)
  · exact sound.areValues (by decide) _ (by simp)
  · have values := sound.areValues (by decide)
    intro act member
    rcases List.mem_cons.mp member with rfl | last
    · exact ⟨rfl, fun tree same => by cases same; exact values _ (by simp)⟩
    · rw [List.mem_singleton.mp last]
      exact ⟨rfl, fun tree same => by cases same; exact values _ (by simp)⟩
  · exact List.forall_mem_nil _
  · rw [Filling.isShut, List.forall_mem_singleton]
    exact ⟨rfl, fun tree same => by cases same⟩

theorem stems_filling (stemming : Stemming loose trail) {filling : Filling}
    {slot : Option DeclarationId} (like : FillingLike (Kin loose) filling filling)
    (obeys : filling.obeys (settles loose)) (below : Below loose own chain place)
    (here : place.here ∈ own ∨ loose = false ∧ filling.isShut) (brings : Brings own ids notes)
    (slotted : ∀ id ∈ slot, id ∈ ids) (leaves : filling.Leaves trail place slot notes) :
    ∀ note ∈ notes, note.Stems loose own chain ids := by
  cases leaves with
  | acts _ played =>
    cases like with
    | acts like =>
      exact stems_acts stemming _ like obeys below
        (fun act member => here.imp_right fun shut => ⟨shut.1, shut.2 act member⟩) brings played
    | fails => cases played with | cons failed => cases failed
  | value id walked =>
    cases like with
    | value like =>
      obtain ⟨early, -⟩ := brings_append.mp brings
      rw [List.forall_mem_append, List.forall_mem_singleton]
      exact ⟨stemming _ _ _ _ _ _ _ like below here early walked, slotted id rfl⟩

theorem stems_slot (here : place.here ∈ own) (leaves : SlotLeaves place entry notes) :
    ∀ note ∈ notes, note.Stems loose own chain ids := by
  cases leaves with
  | named id stamp isNamed =>
    rw [List.forall_mem_singleton]
    exact .inl here
  | unnamed noName => exact List.forall_mem_nil _

variable {blocks : List (List Note × List Note)}

theorem exists_entry {entries : List Tree}
    (filled : List.Forall₂ (EntryLeaves trail place) entries blocks) :
    ∀ block ∈ blocks, ∃ entry ∈ entries, EntryLeaves trail place entry block := by
  induction filled with
  | nil => exact List.forall_mem_nil _
  | cons first _ ih =>
    rw [List.forall_mem_cons]
    refine ⟨⟨_, List.mem_cons_self, first⟩, fun block member => ?_⟩
    obtain ⟨entry, inside, leaves⟩ := ih block member
    exact ⟨entry, List.mem_cons_of_mem _ inside, leaves⟩

theorem stems_block (stemming : Stemming loose trail) {block : List Note × List Note}
    (kin : Kin loose entry entry) (below : Below loose own chain place)
    (here : place.here ∈ own ∨ loose = false) (brings : Brings own ids block.2)
    (slotted : ∀ id ∈ slotOf block.1, id ∈ ids) (leaves : EntryLeaves trail place entry block) :
    ∀ note ∈ block.2, note.Stems loose own chain ids :=
  stems_filling stemming (filling_like (tracks_kin loose) kin) (obeys_filling loose entry) below
    (here.imp_right fun strict => ⟨strict, kin.2.1.isShut⟩) brings slotted leaves.filled

theorem stems_table (stemming : Stemming loose trail) {entries : List Tree} {id : ScopeId}
    (kin : ∀ entry ∈ entries, Kin loose entry entry)
    (below : Below loose own chain place)
    (brings : Brings own ids
      (.scope id .table place.here :: (blocks.flatMap (·.1) ++ blocks.flatMap (·.2))))
    (filled : List.Forall₂ (EntryLeaves trail (place.enter id false)) entries blocks) :
    ∀ note ∈ (.scope id .table place.here :: (blocks.flatMap (·.1) ++ blocks.flatMap (·.2)) : List Note),
      note.Stems loose own chain ids := by
  obtain ⟨first, rest⟩ := brings_cons.mp brings
  obtain ⟨slots, fills⟩ := brings_append.mp rest
  have isOwn : id ∈ own := first.scopes (by simp)
  rw [List.forall_mem_cons, List.forall_mem_append]
  refine ⟨trivial, fun note member => ?_, fun note member => ?_⟩
  · obtain ⟨block, isBlock, inside⟩ := List.mem_flatMap.mp member
    obtain ⟨entry, -, leaves⟩ := exists_entry filled block isBlock
    exact stems_slot isOwn leaves.slot note inside
  · obtain ⟨block, isBlock, inside⟩ := List.mem_flatMap.mp member
    obtain ⟨entry, isEntry, leaves⟩ := exists_entry filled block isBlock
    refine stems_block stemming (kin entry isEntry) (below.enter isOwn false)
      (.inl isOwn) (fills.subset fun note own => List.mem_flatMap.mpr ⟨block, isBlock, own⟩) ?_ leaves
      note inside
    intro slot isSlot
    have listed := mem_slots (List.mem_map_of_mem isBlock) isSlot
    rw [← List.flatMap_def] at listed
    exact slots.declarations listed

end Entries

section Walks

variable {label : Label} {children : List Tree}

theorem script_acts (plain : label ≠ .inheritCall) :
    (script label children).acts ⊆ plainActs label children := by
  unfold script
  split
  · exact List.nil_subset _
  · exact List.nil_subset _
  · exact absurd rfl plain
  · exact List.Subset.refl _

theorem script_ending (plain : label ≠ .inheritCall) (noTable : label ≠ .table) :
    (script label children).ending = .nothing ∨
      ∃ inner ∈ children, label = .parenthesized ∧ (script label children).ending = .value inner := by
  unfold script
  split
  · exact .inr ⟨_, by simp, rfl, rfl⟩
  · exact absurd rfl noTable
  · exact absurd rfl plain
  · exact .inl rfl

theorem Kin.entries (kin : Kin loose (.node .table children) (.node .table children)) :
    ∀ entry ∈ children.filter (·.isNode), Kin loose entry entry := by
  intro entry member
  have inside := (List.mem_filter.mp member).1
  have without := kin.2.2
  rw [avoids, Tree.everywhere_node, Bool.and_eq_true, Tree.everywhereOf_iff] at without
  exact ⟨rfl, kin.2.1.child entry inside, without.2 entry inside⟩

theorem stems_script (stemming : Stemming loose trail) {table : Option ScopeId}
    (kin : Kin loose (.node label children) (.node label children))
    (below : Below loose own chain place)
    (here : place.here ∈ own ∨ loose = false ∧ label ∈ valueLabels) (brings : Brings own ids notes)
    (leaves : (script label children).Leaves trail place notes table) :
    ∀ note ∈ notes, note.Stems loose own chain ids := by
  have free := kin.label_not_mem
  have noCall : label ≠ .inheritCall := by
    rintro rfl
    cases loose <;> exact free (by decide)
  cases leaves with
  | mk played ended =>
    by_cases isTable : label = .table
    · subst isTable
      cases (played : LeaveAll trail [] place _)
      cases (ended : (Ending.table (children.filter (·.isNode))).Leaves trail place _ _) with
      | table id filled => exact stems_table stemming kin.entries below brings filled
    · obtain ⟨early, late⟩ := brings_append.mp brings
      have like := script_like (tracks_kin loose) kin isTable kin.2.1.label_ne
      have obeys : obeyAll (settles loose) (script label children).acts :=
        obeyAll_iff.mpr fun act member => obeyAll_iff.mp
          (obeys_plain (allows_settles free) children) act (script_acts noCall member)
      have values (listed : label ∈ valueLabels) (lasting : label ∉ closureLabels) :=
        kin.2.1.values listed lasting isTable
      rw [List.forall_mem_append]
      refine ⟨stems_acts stemming _ like.acts obeys below (fun act member => ?_) early played, ?_⟩
      · refine here.imp_right fun ⟨strict, listed⟩ => ?_
        have noSlot : label ≠ .newSlot := by
          rintro rfl
          exact free (by rw [strict]; decide)
        have shut := kin.2.1.shut listed noSlot act (script_acts noCall member)
        refine ⟨strict, shut.1, fun tree walks => ?_⟩
        have inside := shut.2 tree walks
        by_cases closes : label ∈ closureLabels
        · rw [if_pos closes] at inside
          cases inside
        · rw [if_neg closes] at inside
          exact values listed closes tree inside
      · rcases script_ending noCall isTable with nothing | ⟨inner, inside, isGroup, isInner⟩
        · rw [nothing] at ended
          cases ended
          exact List.forall_mem_nil _
        · rw [isInner] at ended
          cases ended with
          | value walked =>
            obtain ⟨_, same, alike, -⟩ := (tracks_kin loose).node kin
            cases same
            have own := List.forall₂_same.mp (alike (by rw [isGroup]; rfl)) inner inside
            refine stemming _ _ _ _ _ _ _ own below (here.imp_right fun ⟨strict, listed⟩ => ?_) late
              walked
            exact ⟨strict, values listed (by rw [isGroup]; decide) inner inside⟩

theorem stemming_walk (loose : Bool) (levels : Nat) : Stemming loose (Leaves levels) := by
  induction levels with
  | zero =>
    intro tree place notes table own chain ids kin below here brings leaves
    cases tree with
    | leaf token =>
      obtain ⟨rfl, -⟩ := leaves
      exact List.forall_mem_nil _
    | node label children => exact leaves.elim
  | succ levels ih =>
    intro tree place notes table own chain ids kin below here brings leaves
    cases tree with
    | leaf token =>
      obtain ⟨rfl, -⟩ := leaves
      exact List.forall_mem_nil _
    | node label children =>
      exact stems_script ih kin below (here.imp_right fun value => ⟨value.1, value.2 label rfl⟩) brings
        leaves.2

end Walks

end Stems

end Squirrel.Analysis
