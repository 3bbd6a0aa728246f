import Squirrel.Proofs.Analysis.Notes
import Squirrel.Proofs.Safety

/-! Every walk over a well made tree leaves notes, whatever its nesting allows. -/

namespace Squirrel.Analysis

/-- A tree without faults, made the way the grammar makes trees. -/
structure Sound (tree : Tree) : Prop where
  clean : tree.errors = 0
  shaped : tree.isShaped
  composed : tree.everywhere Tree.isComposed

section Trees

variable {label : Label} {children : List Tree}

section

variable (sound : Sound (.node label children))

include sound

theorem Sound.child : ∀ child ∈ children, Sound child := by
  intro child member
  have clean := sound.clean
  have composed := sound.composed
  rw [Tree.errors_node, Nat.add_eq_zero_iff, Tree.errorsOf_eq_zero] at clean
  rw [Tree.everywhere_node, Bool.and_eq_true, Tree.everywhereOf_iff] at composed
  exact ⟨clean.2 child member, Tree.children_shaped sound.shaped child member,
    composed.2 child member⟩

theorem Sound.label_ne : label ≠ .error := by
  rintro rfl
  have clean := sound.clean
  rw [Tree.errors_node, if_pos rfl] at clean
  simp at clean

theorem Sound.part {labels : List Label} (parts : label.parts = labels) {child : Tree}
    (member : child ∈ children) (isNode : child.isNode) :
    ∃ own ∈ labels, child.label? = some own :=
  part_labelled sound.composed parts member isNode

end

theorem sound_parse [NestingLimit] {source : String} (clean : (parse source).tree.errors = 0) :
    Sound (parse source).tree :=
  ⟨clean, shaped_parse source, composed_parse source⟩

def Itself (tree other : Tree) : Prop := other = tree ∧ Sound tree

theorem tracks_itself : Tracks Itself := by
  refine .of_children (fun like => like.1) (fun {label children tree} like => ?_)
    (fun like => like.2.composed) (fun like => like.2.shaped)
  obtain ⟨rfl, sound⟩ := like
  refine ⟨children, rfl, fun _ => List.forall₂_same.mpr fun child member => ?_⟩
  exact ⟨rfl, sound.child child member⟩

end Trees

section Recording

variable {place : Place}

/-- A walk that comes to an end leaves notes with the numbers that come next. -/
def Records (place : Place) {α : Type} (walk : Walk α) (leaves : List Note → α → Prop) : Prop :=
  ∀ state value after, Ready .same place state → walk state = .ok value after →
    ∃ notes, leaves notes value ∧ Numbers .same state notes

theorem records_pure {α : Type} {value : α} {leaves : List Note → α → Prop}
    (left : leaves [] value) : Records place (pure value) leaves := by
  rintro state _ _ ready ⟨⟩
  exact ⟨[], left, numbers_nil .same state⟩

theorem Records.bind {α β : Type} {walk : Walk α} {next : α → Walk β}
    {leaves : List Note → α → Prop} {both : List Note → β → Prop}
    (one : Records place walk leaves)
    (replays : ∀ notes value, leaves notes value → Replays .same place walk notes value)
    (two : ∀ notes value, leaves notes value →
      Records place (next value) fun others => both (notes ++ others)) :
    Records place (walk >>= next) both := by
  intro state value after ready ran
  obtain ⟨first, middle, early, late⟩ := bind_ok ran
  obtain ⟨notes, left, numbers⟩ := one state first middle ready early
  obtain ⟨replayed, filed⟩ := replays notes first left state ready numbers
  cases early.symm.trans replayed
  obtain ⟨others, more, later⟩ := two notes first left _ value after (ready.replay filed) late
  exact ⟨notes ++ others, more, (numbers_append .same).mpr ⟨numbers, later⟩⟩

theorem Records.andThen {α β : Type} {walk : Walk α} {next : α → Walk β}
    {leaves : List Note → α → Prop} {both : List Note → β → Prop}
    (one : Records place walk leaves)
    (ends : ∀ notes first state value after, leaves notes first →
      next first state = .ok value after → both notes value) :
    Records place (walk >>= next) both := by
  intro state value after ready ran
  obtain ⟨first, middle, early, late⟩ := bind_ok ran
  obtain ⟨notes, left, numbers⟩ := one state first middle ready early
  exact ⟨notes, ends notes first middle value after left late, numbers⟩

theorem numbers_declare (state : State) (home : ScopeId) (name : String) (kind : DeclarationKind)
    (span : Span) (excused : Bool) :
    Numbers .same state [.declare ⟨state.graph.declarations.length, state.seq + 1, home, name, kind,
      span, excused⟩] :=
  ⟨counts_nil, counts_single.mpr rfl, counts_single.mpr rfl⟩

theorem records_inScope {α : Type} (kind : ScopeKind) {walk : ScopeId → Walk α}
    {leaves : List Note → α → Prop}
    (inside : ∀ id, Records (place.enter id false) (walk id) fun notes =>
      leaves (.scope id kind place.here :: notes)) :
    Records place (inScope kind walk) leaves := by
  intro state value after ready ran
  rw [inScope_run] at ran
  split at ran
  · next result middle inner =>
    cases ran
    obtain ⟨notes, left, numbers⟩ := inside _ _ _ _ (ready.enter kind rfl) inner
    have first : Numbers .same state [.scope state.graph.scopes.length kind place.here] :=
      ⟨counts_single.mpr rfl, counts_nil, counts_nil⟩
    have scopes := numbers.scopes
    rw [State.entering, ScopeGraph.length_addScope] at scopes
    refine ⟨_, left, (numbers_append .same).mpr ⟨first, ?_, numbers.declarations, numbers.stamps⟩⟩
    rw [scopes_replay]
    exact scopes
  · cases ran

theorem records_deferring {walk : Walk Unit} {leaves : List Note → Unit → Prop}
    (inside : Records { place with deferred := true } walk leaves) :
    Records place (deferring walk) leaves := by
  intro state value after ready ran
  obtain ⟨_, middle, early, -⟩ := bind_ok
    (show (walk >>= fun _ => modify fun state =>
      { state with functionDepth := state.functionDepth - 1 })
        (state.standing state.scope (state.functionDepth + 1)) = .ok value after from ran)
  obtain ⟨notes, left, numbers⟩ := inside _ _ _ ready.defer early
  exact ⟨notes, left, numbers.scopes, numbers.declarations, numbers.stamps⟩

/-- The walks of a visitor over sound trees leave the notes of a trail. -/
def Recorded (walk : Visitor) (trail : Trail) : Prop :=
  ∀ tree place, Sound tree → Records place (walk tree) (trail tree place)

variable {walk : Visitor} {trail : Trail}

theorem replays_same (follows : Follows .same walk trail) {tree : Tree} {notes : List Note}
    {table : Option ScopeId} (left : trail tree place notes table) :
    Replays .same place (walk tree) notes table := by
  have replays := follows _ _ _ _ left
  rwa [show table.map Numbering.same.scopes = table from Option.map_id_apply] at replays

theorem records_value (recorded : Recorded walk trail) {value? : Option Tree}
    (like : Option.Rel Itself value? value?) :
    Records place (tableOf walk value?) (ValueLeaves trail place value?) := by
  cases like with
  | none => exact records_pure .none
  | some like =>
    intro state table after ready ran
    obtain ⟨notes, left, numbers⟩ := recorded _ place like.2 state table after ready ran
    exact ⟨notes, .some left, numbers⟩

mutual

theorem records_act (follows : Follows .same walk trail) (recorded : Recorded walk trail) :
    (act : Act) → ∀ {place}, ActLike Itself act act →
      Records place (act.play walk) fun notes _ => act.Leaves trail place notes
  | .walk tree, place, like => by
    cases like with
    | walk like =>
      exact (recorded tree place like.2).andThen fun _ _ _ _ _ left _ => .walk left
  | .refer name isCall isRead isWrite, place, _ => by
    intro state _ _ ready _
    exact ⟨_, .refer name isCall isRead isWrite place (state.seq + 1), counts_nil, counts_nil,
      counts_single.mpr rfl⟩
  | .declare home name kind, place, _ => by
    intro state _ _ ready _
    exact ⟨_, .declare home name kind place _ _, numbers_declare state _ _ _ _ _⟩
  | .excuse name, place, _ => by
    intro state _ _ ready _
    exact ⟨_, .excuse name place _ _, numbers_declare state _ _ _ _ _⟩
  | .bind home name kind value?, place, like => by
    cases like with
    | bind _ _ _ like =>
      rw [Act.play]
      refine (records_value recorded like).bind (fun notes table valued => ?_)
        fun notes table valued state _ _ ready _ => ?_
      · have replays := replays_value follows valued
        rwa [show table.map Numbering.same.scopes = table from Option.map_id_apply] at replays
      · have numbers := numbers_declare state (home.at place) name.text kind name.span false
        exact ⟨_, .bind home name kind _ _ valued, numbers.scopes, numbers.declarations,
          numbers.stamps⟩
  | .recover tokens, _, like => nomatch like
  | .within enclosure later acts, place, like => by
    cases like with
    | within _ _ like =>
      rw [Act.play]
      refine records_inScope enclosure.kind fun id => ?_
      have played := @records_acts follows recorded acts (place.enter id later) like
      cases later with
      | false =>
        intro state value after ready ran
        obtain ⟨notes, left, numbers⟩ := played state value after ready ran
        exact ⟨notes, .within enclosure false id left, numbers⟩
      | true =>
        refine records_deferring fun state value after ready ran => ?_
        rw [Place.enter, Bool.or_true] at played
        obtain ⟨notes, left, numbers⟩ := played state value after ready ran
        refine ⟨notes, .within enclosure true id ?_, numbers⟩
        rw [Place.enter, Bool.or_true]
        exact left

theorem records_acts (follows : Follows .same walk trail) (recorded : Recorded walk trail) :
    (acts : List Act) → ∀ {place}, ActsLike Itself acts acts →
      Records place (playAll walk acts) fun notes _ => LeaveAll trail acts place notes
  | [], place, _ => records_pure (.nil place)
  | act :: acts, place, like => by
    obtain ⟨first, rest⟩ := List.forall₂_cons.mp like
    refine (records_act follows recorded act first).bind
      (fun notes _ left => replays_act follows act left) fun notes _ left => ?_
    intro state value after ready ran
    obtain ⟨others, more, numbers⟩ :=
      records_acts follows recorded acts rest state value after ready ran
    exact ⟨others, .cons left more, numbers⟩

end

theorem slots_left (place : Place) (entries : List Tree) (state : State) :
    ∃ firsts, List.Forall₂ (SlotLeaves place) entries firsts ∧
      Numbers .same state firsts.flatten := by
  induction entries generalizing state with
  | nil => exact ⟨[], .nil, numbers_nil .same state⟩
  | cons entry entries ih =>
    obtain ⟨notes, left, numbers⟩ : ∃ notes, SlotLeaves place entry notes ∧
        Numbers .same state notes := by
      cases isNamed : slotName? entry with
      | none => exact ⟨[], .unnamed isNamed, numbers_nil .same state⟩
      | some name => exact ⟨_, .named _ _ isNamed, numbers_declare state _ _ _ _ _⟩
    obtain ⟨firsts, others, later⟩ := ih (replay .same notes state)
    exact ⟨notes :: firsts, .cons left others, (numbers_append .same).mpr ⟨numbers, later⟩⟩

theorem filling_left (follows : Follows .same walk trail) (recorded : Recorded walk trail)
    {filling : Filling} (like : FillingLike Itself filling filling) (slot : Option DeclarationId) :
    Records place (filling.play walk slot) fun notes _ => filling.Leaves trail place slot notes := by
  cases like with
  | acts like =>
    intro state value after ready ran
    obtain ⟨notes, left, numbers⟩ :=
      records_acts follows recorded _ like state value after ready ran
    exact ⟨notes, .acts slot left, numbers⟩
  | value like =>
    rw [Filling.play]
    intro state value after ready ran
    obtain ⟨table, middle, walked, ends⟩ := bind_ok ran
    obtain ⟨notes, left, numbers⟩ := recorded _ place like.2 state table middle ready walked
    cases slot with
    | none => cases ends
    | some id =>
      refine ⟨_, .value id left, (numbers_append .same).mpr ⟨numbers, ?_⟩⟩
      exact ⟨counts_nil, counts_nil, counts_nil⟩
  | fails =>
    intro state value after ready ran
    cases ran

theorem fills_left (follows : Follows .same walk trail) (recorded : Recorded walk trail)
    {entries : List Tree} {firsts : List (List Note)} {state after : State}
    (slots : List.Forall₂ (SlotLeaves place) entries firsts)
    (sound : ∀ entry ∈ entries, Sound entry) (ready : Ready .same place state)
    (there : ∀ notes ∈ firsts, ∀ id ∈ slotOf notes, id < state.graph.declarations.length)
    (ran : fillAll walk (entries.zip (firsts.map slotOf)) state = .ok () after) :
    ∃ blocks, blocks.map (·.1) = firsts ∧
      List.Forall₂ (EntryLeaves trail place) entries blocks ∧
        Numbers .same state (blocks.flatMap (·.2)) := by
  induction slots generalizing state with
  | nil => exact ⟨[], rfl, .nil, numbers_nil .same state⟩
  | @cons entry slot entries firsts first _ ih =>
    obtain ⟨isSound, others⟩ := List.forall_mem_cons.mp sound
    obtain ⟨own, others'⟩ := List.forall_mem_cons.mp there
    rw [List.map_cons, List.zip_cons_cons, fillAll] at ran
    obtain ⟨⟨⟩, middle, early, late⟩ := bind_ok ran
    obtain ⟨notes, left, numbers⟩ := filling_left follows recorded
      (filling_like tracks_itself ⟨rfl, isSound⟩) (slotOf slot) state () middle ready early
    have run := filling_run follows left ready numbers own
    rw [show (slotOf slot).map Numbering.same.declarations = slotOf slot from Option.map_id_apply]
      at run
    cases early.symm.trans run.1
    obtain ⟨blocks, isFirst, entered, later⟩ := ih others (ready.replay run.2)
      (fun other member id isSlot => by
        rw [declarations_replay]
        exact Nat.lt_add_right _ (others' other member id isSlot)) late
    exact ⟨(slot, notes) :: blocks, by rw [List.map_cons, isFirst], .cons ⟨first, left⟩ entered,
      (numbers_append .same).mpr ⟨numbers, later⟩⟩

theorem records_table (follows : Follows .same walk trail) (recorded : Recorded walk trail)
    {entries : List Tree} (sound : ∀ entry ∈ entries, Sound entry) :
    Records place ((Ending.table entries).play walk) ((Ending.table entries).Leaves trail place) := by
  rw [Ending.play]
  refine records_inScope .table fun id state value after ready ran => ?_
  obtain ⟨firsts, slots, numbers⟩ := slots_left (place.enter id false) entries state
  obtain ⟨declares, filed⟩ := replays_slots slots state ready numbers
  rw [show Numbering.same.scopes (place.enter id false).here = id from rfl] at declares
  rw [bind_run declares] at ran
  obtain ⟨⟨⟩, middle, fills, ends⟩ := bind_ok ran
  cases ends
  have same : (firsts.map fun notes => (slotOf notes).map Numbering.same.declarations) =
      firsts.map slotOf := List.map_congr_left fun _ _ => Option.map_id_apply
  rw [same] at fills
  obtain ⟨blocks, rfl, entered, later⟩ := fills_left follows recorded slots sound
    (ready.replay filed) (fun _ member _ isSlot => slot_inside numbers member isSlot) fills
  refine ⟨_, .table id entered, ?_⟩
  rw [← List.flatMap_def] at numbers later
  exact (numbers_append .same).mpr ⟨numbers, later⟩

theorem records_ending (recorded : Recorded walk trail)
    {ending : Ending} (like : EndingLike Itself ending ending) :
    Records place (ending.play walk) (ending.Leaves trail place) := by
  cases like with
  | nothing => exact records_pure .nothing
  | value like =>
    intro state value after ready ran
    obtain ⟨notes, left, numbers⟩ := recorded _ place like.2 state value after ready ran
    exact ⟨notes, .value left, numbers⟩
  | inherit based like =>
    rw [Ending.play]
    intro state value after ready ran
    obtain ⟨table, middle, walked, ends⟩ := bind_ok ran
    obtain ⟨notes, left, numbers⟩ := recorded _ place like.2 state table middle ready walked
    cases table with
    | none => cases ends
    | some table =>
      cases ends
      refine ⟨_, .inherit ((replay .same notes state).seq + 1) left,
        (numbers_append .same).mpr ⟨numbers, counts_nil, counts_nil, counts_single.mpr rfl⟩⟩

theorem records_script (follows : Follows .same walk trail) (recorded : Recorded walk trail)
    {script : Script} (acts : ActsLike Itself script.acts script.acts)
    (ending : Records place (script.ending.play walk) (script.ending.Leaves trail place)) :
    Records place (script.play walk) (script.Leaves trail place) := by
  refine (records_acts follows recorded _ acts).bind
    (fun notes _ left => replays_acts follows _ left) fun notes _ left => ?_
  intro state value after ready ran
  obtain ⟨others, ended, numbers⟩ := ending state value after ready ran
  exact ⟨others, .mk left ended, numbers⟩

theorem Sound.entries {children : List Tree} (sound : Sound (.node .table children)) :
    ∀ entry ∈ children.filter (·.isNode), Sound entry :=
  fun entry member => sound.child entry (List.mem_filter.mp member).1

theorem recorded_walk (levels : Nat) : Recorded (Analysis.walk levels) (Leaves levels) := by
  induction levels with
  | zero =>
    intro tree place sound
    cases tree with
    | leaf token => exact records_pure ⟨rfl, rfl⟩
    | node label children =>
      intro state value after ready ran
      cases ran
  | succ levels ih =>
    have follows := follows_walk .same levels
    intro tree place sound
    cases tree with
    | leaf token => exact records_pure ⟨rfl, rfl⟩
    | node label children =>
      have fitting := Tree.admits_of_isShaped sound.shaped
      have scripted : Records place ((script label children).play (Analysis.walk levels))
          ((script label children).Leaves (Leaves levels) place) := by
        by_cases isTable : label = .table
        · subst isTable
          exact records_script follows ih .nil (records_table follows ih sound.entries)
        · have like := script_like tracks_itself ⟨rfl, sound⟩ isTable sound.label_ne
          exact records_script follows ih like.acts (records_ending ih like.ending)
      rw [walk_node, if_pos fitting]
      intro state value after ready ran
      obtain ⟨notes, left, numbers⟩ := scripted state value after ready ran
      exact ⟨notes, ⟨fitting, left⟩, numbers⟩

end Recording

section Programs

def Place.start : Place := ⟨ScopeGraph.root, [], false⟩

theorem ready_initial (numbering : Numbering) : Ready numbering .start .initial := by
  have isRoot : numbering.scopes Place.start.here = ScopeGraph.root :=
    (numbering.rooted _).mpr rfl
  refine ⟨collected_initial.filed, isRoot.symm, rfl, ?_⟩
  rw [isRoot]
  exact ⟨_, rfl, rfl⟩

theorem walk_left [NestingLimit] {tree : Tree} {state : State} (sound : Sound tree)
    (walked : walkTree? tree = .ok (state, true)) :
    ∃ notes table, Leaves nestingLimit tree .start notes table ∧
      Numbers .same .initial notes ∧ state = replay .same notes .initial := by
  unfold walkTree? at walked
  split at walked
  · next value after ran =>
    cases walked
    have ready := ready_initial .same
    obtain ⟨notes, left, numbers⟩ :=
      recorded_walk nestingLimit tree .start sound .initial value state ready ran
    have replayed := (replays_same (follows_walk .same nestingLimit) left .initial ready numbers).1
    cases ran.symm.trans replayed
    exact ⟨notes, value, left, numbers, rfl⟩
  · cases walked
  · cases walked

theorem complete_walk [NestingLimit] {known : List String} {tree : Tree}
    (complete : (analyzeTree known tree).complete) :
    ∃ state, walkTree? tree = .ok (state, true) ∧
      (analyzeTree known tree).references = state.references := by
  rw [analyzeTree] at complete ⊢
  cases analyzed : analyzeTree? known tree with
  | error cause =>
    rw [analyzed] at complete
    cases complete
  | ok analysis =>
    rw [analyzed] at complete
    obtain ⟨⟨state, isComplete⟩, walked, rest⟩ := of_bind_ok analyzed
    obtain ⟨resolved, -, given⟩ := of_bind_ok rest
    cases given
    cases complete
    exact ⟨state, walked, rfl⟩

end Programs

end Squirrel.Analysis
