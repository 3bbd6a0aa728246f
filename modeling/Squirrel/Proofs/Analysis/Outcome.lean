import Mathlib.Data.List.Induction
import Mathlib.Data.List.Nodup
import Squirrel.Proofs.Analysis.Recording

/-! What the notes of a walk make of a state. -/

namespace Squirrel.Analysis

section Proper

@[simp] def Note.link? : Note → Option (ScopeId × ScopeId)
  | .scope id _ outer => some (id, outer)
  | _ => none

def links (notes : List Note) : List (ScopeId × ScopeId) := notes.filterMap Note.link?

@[simp] theorem links_nil : links [] = [] := rfl

@[simp] theorem links_cons (note : Note) (notes : List Note) :
    links (note :: notes) = note.link?.toList ++ links notes := by
  cases note <;> rfl

@[simp] theorem links_append (notes others : List Note) :
    links (notes ++ others) = links notes ++ links others := List.filterMap_append

theorem map_links (notes : List Note) : (links notes).map Prod.fst = scopeIds notes := by
  induction notes with
  | nil => rfl
  | cons note notes ih => cases note <;> simp [ih]

def known (outer : List (ScopeId × ScopeId)) : List ScopeId :=
  ScopeGraph.root :: outer.map Prod.fst

/-- Whether each scope of a chain stands in the next one, up to the root. -/
def Chained (outer : List (ScopeId × ScopeId)) : List ScopeId → Prop
  | [] => False
  | [id] => id = ScopeGraph.root
  | id :: next :: rest => (id, next) ∈ outer ∧ Chained outer (next :: rest)

variable {outer others : List (ScopeId × ScopeId)} {ids : List DeclarationId}

theorem Chained.mono (more : outer ⊆ others) {chain : List ScopeId} (chained : Chained outer chain) :
    Chained others chain := by
  induction chain with
  | nil => exact chained
  | cons id chain ih =>
    cases chain with
    | nil => exact chained
    | cons next rest => exact ⟨more chained.1, ih chained.2⟩

theorem Chained.subset {chain : List ScopeId} (chained : Chained outer chain) :
    ∀ id ∈ chain, id ∈ known outer := by
  induction chain with
  | nil => exact chained.elim
  | cons id chain ih =>
    cases chain with
    | nil =>
      rw [List.forall_mem_singleton, show id = ScopeGraph.root from chained]
      exact List.mem_cons_self
    | cons next rest =>
      rw [List.forall_mem_cons]
      exact ⟨List.mem_cons_of_mem _ (List.mem_map_of_mem chained.1), ih chained.2⟩

/-- Whether a note speaks of scopes and declarations that are there. -/
def Note.IsProper (outer : List (ScopeId × ScopeId)) (ids : List DeclarationId) : Note → Prop
  | .scope _ kind around => kind ≠ .root ∧ around ∈ known outer
  | .declare naming => naming.home ∈ known outer
  | .tabulate id table => id ∈ ids ∧ ∀ own ∈ table, own ∈ known outer
  | .refer use _ _ _ _ => Chained outer use.place.chain
  | .inherit use table _ => table ∈ known outer ∧ Chained outer use.place.chain

def Proper (outer : List (ScopeId × ScopeId)) (ids : List DeclarationId) : List Note → Prop
  | [] => True
  | note :: notes => note.IsProper outer ids ∧
    Proper (outer ++ note.link?.toList) (ids ++ (note.naming?.map (·.id)).toList) notes

theorem proper_append {notes more : List Note} :
    Proper outer ids (notes ++ more) ↔ Proper outer ids notes ∧
      Proper (outer ++ links notes) (ids ++ (namings notes).map (·.id)) more := by
  induction notes generalizing outer ids with
  | nil => simp [Proper]
  | cons note notes ih =>
    have own : (note.naming?.map (·.id)).toList = note.naming?.toList.map (·.id) := by
      cases note.naming? <;> rfl
    rw [List.cons_append, Proper, Proper, ih, and_assoc, links_cons, namings_cons, List.map_append,
      own, List.append_assoc, List.append_assoc]

theorem known_mono (more : outer ⊆ others) : known outer ⊆ known others :=
  List.cons_subset_cons _ (List.map_subset _ more)

theorem Note.IsProper.mono {note : Note} {all : List DeclarationId} (more : outer ⊆ others)
    (further : ids ⊆ all) (proper : note.IsProper outer ids) : note.IsProper others all := by
  have there := known_mono more
  cases note with
  | scope id kind around => exact ⟨proper.1, there proper.2⟩
  | declare naming => exact there proper
  | tabulate id table => exact ⟨further proper.1, fun own member => there (proper.2 own member)⟩
  | refer use name isCall isRead isWrite => exact Chained.mono more proper
  | inherit use table base => exact ⟨there proper.1, Chained.mono more proper.2⟩

variable {place : Place}

theorem Chained.here (chained : Chained outer place.chain) : place.here ∈ known outer :=
  chained.subset place.here List.mem_cons_self

theorem home_known (chained : Chained outer place.chain) (home : Home) :
    home.at place ∈ known outer := by
  cases home with
  | here => exact chained.here
  | root => exact List.mem_cons_self
  | function isLocal =>
    rw [Home.at]
    split
    · exact List.mem_cons_self
    · exact chained.here

theorem Chained.enter (chained : Chained outer place.chain) (id : ScopeId) (later : Bool) :
    Chained (outer ++ [(id, place.here)]) (place.enter id later).chain :=
  ⟨List.mem_append_right _ List.mem_cons_self, chained.mono (List.subset_append_left _ _)⟩

/-- The notes of a trail speak of what is there, and a table is the scope of one of them. -/
def Tidy (trail : Trail) : Prop :=
  ∀ tree place notes table outer ids, Chained outer place.chain → trail tree place notes table →
    Proper outer ids notes ∧ ∀ id ∈ table, id ∈ scopeIds notes

variable {trail : Trail} {notes : List Note} {table : Option ScopeId}

theorem proper_value (tidy : Tidy trail) (ids : List DeclarationId)
    (chained : Chained outer place.chain) {value? : Option Tree}
    (valued : ValueLeaves trail place value? notes table) :
    Proper outer ids notes ∧ ∀ id ∈ table, id ∈ scopeIds notes := by
  cases valued with
  | none => exact ⟨trivial, by simp⟩
  | some walked => exact tidy _ _ _ _ _ _ chained walked

theorem known_append {id : ScopeId} (member : id ∈ scopeIds notes) :
    id ∈ known (outer ++ links notes) := by
  rw [known, List.map_append, map_links]
  exact List.mem_cons_of_mem _ (List.mem_append_right _ member)

mutual

theorem proper_act (tidy : Tidy trail) : (act : Act) → ∀ {place outer} ids {notes},
    Chained outer place.chain → act.Leaves trail place notes → Proper outer ids notes
  | .walk tree, _, _, ids, _, chained, leaves => by
    cases leaves with
    | walk walked => exact (tidy _ _ _ _ _ ids chained walked).1
  | .refer name isCall isRead isWrite, _, _, _, _, chained, leaves => by
    cases leaves
    exact ⟨chained, trivial⟩
  | .declare home name kind, _, _, _, _, chained, leaves => by
    cases leaves
    exact ⟨home_known chained home, trivial⟩
  | .excuse name, _, _, _, _, chained, leaves => by
    cases leaves
    exact ⟨chained.here, trivial⟩
  | .bind home name kind value?, _, _, ids, _, chained, leaves => by
    cases leaves with
    | bind _ _ _ id stamp valued =>
      obtain ⟨proper, given⟩ := proper_value tidy ids chained valued
      refine proper_append.mpr ⟨proper, ?_, ⟨by simp, ?_⟩, trivial⟩
      · exact known_mono (List.subset_append_left _ _) (home_known chained home)
      · intro own member
        exact known_mono (List.subset_append_left _ _) (known_append (given own member))
  | .recover tokens, _, _, _, _, _, leaves => nomatch leaves
  | .within enclosure later acts, _, _, ids, _, chained, leaves => by
    cases leaves with
    | within _ _ id inside =>
      exact ⟨⟨enclosure.kind_ne_root, chained.here⟩,
        proper_acts tidy acts _ (chained.enter id later) inside⟩
  | .fail label, _, _, _, _, _, leaves => nomatch leaves

theorem proper_acts (tidy : Tidy trail) : (acts : List Act) → ∀ {place outer} ids {notes},
    Chained outer place.chain → LeaveAll trail acts place notes → Proper outer ids notes
  | [], _, _, _, _, _, leaves => by
    cases leaves
    trivial
  | act :: acts, _, _, ids, _, chained, leaves => by
    cases leaves with
    | cons first rest =>
      exact proper_append.mpr ⟨proper_act tidy act ids chained first,
        proper_acts tidy acts _ (chained.mono (List.subset_append_left _ _)) rest⟩

end

theorem proper_slots (ids : List DeclarationId) (chained : Chained outer place.chain)
    {entries : List Tree} {firsts : List (List Note)}
    (leaves : List.Forall₂ (SlotLeaves place) entries firsts) :
    Proper outer ids firsts.flatten := by
  induction leaves generalizing ids outer with
  | nil => trivial
  | cons first _ ih =>
    refine proper_append.mpr ⟨?_, ih _ (chained.mono (List.subset_append_left _ _))⟩
    cases first with
    | named id stamp isNamed => exact ⟨chained.here, trivial⟩
    | unnamed noName => trivial

theorem proper_filling (tidy : Tidy trail) (chained : Chained outer place.chain) {filling : Filling}
    {slot : Option DeclarationId} (leaves : filling.Leaves trail place slot notes)
    (there : ∀ id ∈ slot, id ∈ ids) : Proper outer ids notes := by
  cases leaves with
  | acts _ played => exact proper_acts tidy _ ids chained played
  | value id walked =>
    obtain ⟨proper, given⟩ := tidy _ _ _ _ _ ids chained walked
    refine proper_append.mpr ⟨proper, ⟨?_, fun own member => ?_⟩, trivial⟩
    · exact List.mem_append_left _ (there id rfl)
    · exact known_append (given own member)

theorem proper_fills (tidy : Tidy trail) (chained : Chained outer place.chain)
    {entries : List Tree} {blocks : List (List Note × List Note)}
    (leaves : List.Forall₂ (EntryLeaves trail place) entries blocks)
    (there : ∀ block ∈ blocks, ∀ id ∈ slotOf block.1, id ∈ ids) :
    Proper outer ids (blocks.flatMap (·.2)) := by
  induction leaves generalizing ids outer with
  | nil => trivial
  | cons first _ ih =>
    obtain ⟨own, others⟩ := List.forall_mem_cons.mp there
    exact proper_append.mpr ⟨proper_filling tidy chained first.filled own,
      ih (chained.mono (List.subset_append_left _ _))
        fun other member id isSlot => List.mem_append_left _ (others other member id isSlot)⟩

theorem proper_ending (tidy : Tidy trail) (ids : List DeclarationId)
    (chained : Chained outer place.chain) {ending : Ending}
    (leaves : ending.Leaves trail place notes table) :
    Proper outer ids notes ∧ ∀ id ∈ table, id ∈ scopeIds notes := by
  cases leaves with
  | nothing => exact ⟨trivial, by simp⟩
  | value walked => exact tidy _ _ _ _ _ _ chained walked
  | table id filled =>
    have slots : List.Forall₂ (SlotLeaves (place.enter id false)) _ (_ : List (List Note)) :=
      List.forall₂_map_right_iff.mpr (filled.imp fun _ _ entry => entry.slot)
    refine ⟨⟨⟨by decide, chained.here⟩, proper_append.mpr ⟨?_, ?_⟩⟩, by simp⟩
    · rw [List.flatMap_def]
      exact proper_slots _ (chained.enter id false) slots
    · refine proper_fills tidy ((chained.enter id false).mono (List.subset_append_left _ _)) filled
        fun block member own isSlot => List.mem_append_right _ ?_
      rw [List.flatMap_def]
      exact mem_slots (List.mem_map_of_mem member) isSlot
  | inherit stamp walked =>
    obtain ⟨proper, given⟩ := tidy _ _ _ _ _ ids chained walked
    have inside := given _ rfl
    refine ⟨proper_append.mpr ⟨proper, ⟨known_append inside, ?_⟩, trivial⟩, ?_⟩
    · exact chained.mono (List.subset_append_left _ _)
    · simpa using inside

theorem proper_script (tidy : Tidy trail) (ids : List DeclarationId)
    (chained : Chained outer place.chain) {script : Script}
    (leaves : script.Leaves trail place notes table) :
    Proper outer ids notes ∧ ∀ id ∈ table, id ∈ scopeIds notes := by
  cases leaves with
  | mk played ended =>
    obtain ⟨proper, given⟩ := proper_ending tidy _ (chained.mono (List.subset_append_left _ _)) ended
    refine ⟨proper_append.mpr ⟨proper_acts tidy _ ids chained played, proper⟩, fun id member => ?_⟩
    rw [scopeIds_append]
    exact List.mem_append_right _ (given id member)

theorem tidy_walk (levels : Nat) : Tidy (Leaves levels) := by
  induction levels with
  | zero =>
    intro tree place notes table outer ids chained leaves
    cases tree with
    | leaf token =>
      obtain ⟨rfl, rfl⟩ := leaves
      exact ⟨trivial, by simp⟩
    | node label children => exact leaves.elim
  | succ levels ih =>
    intro tree place notes table outer ids chained leaves
    cases tree with
    | leaf token =>
      obtain ⟨rfl, rfl⟩ := leaves
      exact ⟨trivial, by simp⟩
    | node label children => exact proper_script ih ids chained leaves.2

end Proper

section Outcome

structure Referral where
  use : Use
  name : Token
  isCall : Bool
  isRead : Bool
  isWrite : Bool

structure Frame where
  id : ScopeId
  kind : ScopeKind
  outer? : Option ScopeId

structure Heir where
  use : Use
  table : ScopeId
  base : Tree

namespace Note

@[simp] def frame? : Note → Option Frame
  | .scope id kind outer => some ⟨id, kind, some outer⟩
  | _ => none

@[simp] def binding? : Note → Option (DeclarationId × Option ScopeId)
  | .tabulate id table => some (id, table)
  | _ => none

@[simp] def referral? : Note → Option Referral
  | .refer use name isCall isRead isWrite => some ⟨use, name, isCall, isRead, isWrite⟩
  | _ => none

@[simp] def heir? : Note → Option Heir
  | .inherit use table base => some ⟨use, table, base⟩
  | _ => none

end Note

def frames (notes : List Note) : List Frame :=
  ⟨ScopeGraph.root, .root, none⟩ :: notes.filterMap Note.frame?

def bindings (notes : List Note) : List (DeclarationId × Option ScopeId) :=
  notes.filterMap Note.binding?

def referrals (notes : List Note) : List Referral := notes.filterMap Note.referral?

def heirs (notes : List Note) : List Heir := notes.filterMap Note.heir?

section Snoc

variable (notes : List Note) (note : Note)

@[simp] theorem frames_snoc : frames (notes ++ [note]) = frames notes ++ note.frame?.toList := by
  rw [frames, List.filterMap_append, ← List.cons_append]
  cases note <;> rfl

@[simp] theorem bindings_snoc :
    bindings (notes ++ [note]) = bindings notes ++ note.binding?.toList := by
  rw [bindings, List.filterMap_append]
  cases note <;> rfl

@[simp] theorem referrals_snoc :
    referrals (notes ++ [note]) = referrals notes ++ note.referral?.toList := by
  rw [referrals, List.filterMap_append]
  cases note <;> rfl

@[simp] theorem heirs_snoc : heirs (notes ++ [note]) = heirs notes ++ note.heir?.toList := by
  rw [heirs, List.filterMap_append]
  cases note <;> rfl

end Snoc

def Naming.meets (naming other : Naming) : Bool :=
  other.home = naming.home && other.name = naming.name

def isRepeated (all : List Naming) (naming : Naming) : Bool :=
  naming.home ≠ ScopeGraph.root && (all.filter naming.meets).head? ≠ some naming

def isSuperseded (all : List Naming) (naming : Naming) : Bool :=
  naming.home ≠ ScopeGraph.root && (all.filter naming.meets).getLast? ≠ some naming

def boundTable (all : List (DeclarationId × Option ScopeId)) (id : DeclarationId) :
    Option ScopeId :=
  (all.filter (·.1 = id)).getLast?.bind (·.2)

variable (numbering : Numbering)

def settled (notes : List Note) (naming : Naming) : Declaration where
  name := naming.name
  kind := naming.kind
  span := naming.span
  scope := numbering.scopes naming.home
  seq := numbering.stamps naming.stamp
  reads := 0
  writes := 0
  tableScope := (boundTable (bindings notes) naming.id).map numbering.scopes
  quiet := naming.excused || isSuperseded (namings notes) naming

def Referral.reference (referral : Referral) : Reference where
  name := referral.name.text
  scope := numbering.scopes referral.use.place.here
  seq := numbering.stamps referral.use.stamp
  deferred := referral.use.place.deferred
  span := referral.name.span
  isCall := referral.isCall
  isRead := referral.isRead
  isWrite := referral.isWrite

def Heir.inheritance (heir : Heir) : Inheritance where
  tableScope := numbering.scopes heir.table
  base := heir.base
  scope := numbering.scopes heir.use.place.here
  seq := numbering.stamps heir.use.stamp
  deferred := heir.use.place.deferred

def Naming.duplicate (naming : Naming) : Diagnostic :=
  ⟨.semantic (.duplicate naming.name), .error, naming.span⟩

end Outcome

structure Outcome (numbering : Numbering) (notes : List Note) (state : State) : Prop where
  filed : state.graph.Filed
  scopes : state.graph.scopes.map outline = (frames notes).map fun frame =>
    (frame.kind, frame.outer?.map numbering.scopes, none, false)
  declarations : state.graph.declarations = (namings notes).map (settled numbering notes)
  references : state.references = (referrals notes).map (Referral.reference numbering)
  inheritances : state.inheritances = (heirs notes).map (Heir.inheritance numbering)
  diagnostics : state.diagnostics =
    ((namings notes).filter (isRepeated (namings notes))).map Naming.duplicate

section Counting

variable {α β : Type} {number : Nat → Nat} {values : List α} {key : α → Nat}

section

variable (counts : Counts number 0 (values.map key))

include counts

theorem Counts.index {place : Nat} {value : α} (found : values[place]? = some value) :
    number (key value) = place := by
  have numbered : ((values.map key).map number)[place]? = some (number (key value)) := by
    rw [List.getElem?_map, List.getElem?_map, found]
    rfl
  obtain ⟨inside, -⟩ := List.getElem?_eq_some_iff.mp found
  rw [counts, List.getElem?_range' (by simpa using inside)] at numbered
  simpa using numbered.symm

theorem Counts.getElem {value : α} (member : value ∈ values) :
    values[number (key value)]? = some value := by
  obtain ⟨place, found⟩ := List.mem_iff_getElem?.mp member
  rwa [counts.index found]

theorem Counts.injective {value other : α} (one : value ∈ values) (two : other ∈ values)
    (same : key value = key other) : value = other := by
  have found := counts.getElem one
  rw [same, counts.getElem two] at found
  exact (Option.some.inj found).symm

theorem Counts.modify (view : α → β) (update : β → β) {value : α} (member : value ∈ values) :
    (values.map view).modify (number (key value)) update =
      values.map fun other => if key other = key value then update (view other) else view other := by
  refine List.ext_getElem? fun place => ?_
  rw [List.getElem?_modify, List.getElem?_map, List.getElem?_map]
  cases found : values[place]? with
  | none => rfl
  | some other =>
    have here := counts.index found
    by_cases same : key other = key value
    · simp [← same, here]
    · have apart : number (key value) ≠ place := by
        rintro rfl
        cases found.symm.trans (counts.getElem member)
        exact same rfl
      simp [same, apart]

end

theorem modify_append {place : Nat} (inside : place < values.length) (more : List α)
    (update : α → α) :
    (values ++ more).modify place update = values.modify place update ++ more := by
  induction values generalizing place with
  | nil => cases inside
  | cons value values ih =>
    cases place with
    | zero => rfl
    | succ place =>
      simp only [List.cons_append, List.modify_succ_cons, ih (Nat.lt_of_succ_lt_succ inside)]

theorem modify_concat (values : List α) (last : α) (update : α → α) :
    (values ++ [last]).modify values.length update = values ++ [update last] := by
  induction values with
  | nil => rfl
  | cons value values ih => simp only [List.cons_append, List.length_cons, List.modify_succ_cons, ih]

end Counting

section Proper

variable {outer : List (ScopeId × ScopeId)} {ids : List DeclarationId} {notes : List Note}

theorem Proper.each (proper : Proper outer ids notes) : ∀ note ∈ notes,
    note.IsProper (outer ++ links notes) (ids ++ (namings notes).map (·.id)) := by
  intro note member
  obtain ⟨before, after, rfl⟩ := List.append_of_mem member
  have own := (proper_append.mp proper).2.1
  refine own.mono ?_ ?_
  · rw [links_append, ← List.append_assoc]
    exact List.subset_append_left _ _
  · rw [namings_append, List.map_append, ← List.append_assoc]
    exact List.subset_append_left _ _

theorem Proper.homes (proper : Proper outer ids notes) :
    ∀ naming ∈ namings notes, naming.home ∈ known (outer ++ links notes) := by
  intro naming member
  obtain ⟨note, isNote, named⟩ := List.mem_filterMap.mp member
  have own := proper.each note isNote
  cases note with
  | declare declared =>
    cases named
    exact own
  | _ => cases named

end Proper

section Settling

variable {numbering : Numbering} {notes : List Note} {state : State}

theorem Numbers.injective (numbers : Numbers numbering .initial notes) {id other : ScopeId}
    (one : id ∈ known (links notes)) (two : other ∈ known (links notes))
    (same : numbering.scopes id = numbering.scopes other) : id = other := by
  have distinct : ((scopeIds notes).map numbering.scopes).Nodup := by
    rw [show (scopeIds notes).map numbering.scopes = _ from numbers.scopes]
    exact List.nodup_range'
  rw [known, map_links, List.mem_cons] at one two
  rcases one with rfl | one
  · exact ((numbering.rooted _).mp (same.symm.trans ((numbering.rooted _).mpr rfl))).symm
  · rcases two with rfl | two
    · exact (numbering.rooted _).mp (same.trans ((numbering.rooted _).mpr rfl))
    · exact List.inj_on_of_nodup_map distinct one two same

section

variable (outcome : Outcome numbering notes state)

include outcome

theorem Outcome.getElem (numbers : Numbers numbering .initial notes) {naming : Naming}
    (member : naming ∈ namings notes) :
    state.graph.declarations[numbering.declarations naming.id]? =
      some (settled numbering notes naming) := by
  rw [outcome.declarations, List.getElem?_map, numbers.declarations.getElem member]
  rfl

variable {home : ScopeId}

theorem Outcome.declarationsOf (numbers : Numbers numbering .initial notes)
    (proper : Proper [] [] notes) (isKnown : home ∈ known (links notes)) (name : String) :
    state.graph.declarationsOf (numbering.scopes home) name =
      ((namings notes).filter fun naming => naming.home = home && naming.name = name).map
        fun naming => numbering.declarations naming.id := by
  have range : List.range state.graph.declarations.length =
      (namings notes).map fun naming => numbering.declarations naming.id := by
    have counts := numbers.declarations
    rw [Counts, List.map_map, List.length_map] at counts
    rw [outcome.declarations, List.length_map, List.range_eq_range']
    exact counts.symm
  unfold ScopeGraph.declarationsOf
  rw [range, List.filter_map]
  congr 1
  refine List.filter_congr fun naming member => ?_
  have homes := proper.homes naming member
  rw [List.nil_append] at homes
  have same : numbering.scopes naming.home = numbering.scopes home ↔ naming.home = home :=
    ⟨numbers.injective homes isKnown, congrArg _⟩
  simp [outcome.getElem numbers member, settled, same]

omit outcome in
theorem map_frames (notes : List Note) : (frames notes).map (·.id) = known (links notes) := by
  rw [known, map_links, frames, List.map_cons]
  congr 1
  induction notes with
  | nil => rfl
  | cons note notes ih => cases note <;> simp [List.filterMap_cons, ih]

omit outcome in
theorem Numbers.frames (numbers : Numbers numbering .initial notes) :
    Counts numbering.scopes 0 ((frames notes).map (·.id)) := by
  rw [map_frames, known, map_links]
  exact counts_cons.mpr ⟨(numbering.rooted _).mpr rfl, numbers.scopes⟩

theorem Outcome.scope (numbers : Numbers numbering .initial notes) {frame : Frame}
    (member : frame ∈ frames notes) :
    ∃ scope, state.graph.scopes[numbering.scopes frame.id]? = some scope ∧
      outline scope = (frame.kind, frame.outer?.map numbering.scopes, none, false) := by
  have found := congrArg (fun listed => listed[numbering.scopes frame.id]?) outcome.scopes
  simp only [List.getElem?_map, numbers.frames.getElem member] at found
  exact Option.map_eq_some_iff.mp found

theorem Outcome.inside (numbers : Numbers numbering .initial notes) {id : ScopeId}
    (isKnown : id ∈ known (links notes)) : numbering.scopes id < state.graph.scopes.length := by
  obtain ⟨frame, member, rfl⟩ := List.mem_map.mp (map_frames notes ▸ isKnown)
  obtain ⟨scope, found, -⟩ := outcome.scope numbers member
  exact (List.getElem?_eq_some_iff.mp found).1

theorem Outcome.latest (numbers : Numbers numbering .initial notes) (proper : Proper [] [] notes)
    (isKnown : home ∈ known (links notes)) (name : String) :
    state.graph.latest? (numbering.scopes home) name =
      ((namings notes).filter fun naming => naming.home = home && naming.name = name).getLast?.map
        fun naming => numbering.declarations naming.id := by
  obtain ⟨frame, member, rfl⟩ := List.mem_map.mp (map_frames notes ▸ isKnown)
  obtain ⟨scope, found, -⟩ := outcome.scope numbers member
  rw [ScopeGraph.latest?, found, Option.bind_some, outcome.filed.listed _ scope found,
    outcome.declarationsOf numbers proper isKnown, List.getLast?_map]

omit outcome in
theorem outcome_initial (numbering : Numbering) : Outcome numbering [] .initial where
  filed := collected_initial.filed
  scopes := rfl
  declarations := rfl
  references := rfl
  inheritances := rfl
  diagnostics := rfl

omit outcome in
theorem settled_snoc {note : Note} (unnamed : note.naming? = none) (unbound : note.binding? = none) :
    settled numbering (notes ++ [note]) = settled numbering notes := by
  funext naming
  simp only [settled, namings_append, namings_cons, namings_nil, bindings_snoc, unnamed, unbound,
    Option.toList_none, List.append_nil]

theorem Outcome.snoc_scope (id : ScopeId) (kind : ScopeKind) (outer : ScopeId) :
    Outcome numbering (notes ++ [.scope id kind outer])
      ((Note.scope id kind outer).replay numbering state) where
  filed := outcome.filed.addScope kind _
  scopes := by
    have added : ((Note.scope id kind outer).replay numbering state).graph.scopes.map outline =
        state.graph.scopes.map outline ++ [(kind, some (numbering.scopes outer), none, false)] :=
      List.map_append
    rw [added, outcome.scopes]
    simp
  declarations := by
    rw [settled_snoc rfl rfl]
    simpa [Note.replay, ScopeGraph.addScope] using outcome.declarations
  references := by simpa [Note.replay] using outcome.references
  inheritances := by simpa [Note.replay] using outcome.inheritances
  diagnostics := by simpa [Note.replay] using outcome.diagnostics

theorem Outcome.snoc_refer {use : Use} (number : numbering.stamps use.stamp = state.seq + 1)
    (name : Token) (isCall isRead isWrite : Bool) :
    Outcome numbering (notes ++ [.refer use name isCall isRead isWrite])
      ((Note.refer use name isCall isRead isWrite).replay numbering state) where
  filed := outcome.filed
  scopes := by simpa [Note.replay] using outcome.scopes
  declarations := by
    rw [settled_snoc rfl rfl]
    simpa [Note.replay] using outcome.declarations
  references := by
    rw [referrals_snoc, List.map_append, ← outcome.references]
    simp [Note.replay, Referral.reference, number]
  inheritances := by simpa [Note.replay] using outcome.inheritances
  diagnostics := by simpa [Note.replay] using outcome.diagnostics

theorem Outcome.snoc_inherit {use : Use} (number : numbering.stamps use.stamp = state.seq + 1)
    (table : ScopeId) (base : Tree) :
    Outcome numbering (notes ++ [.inherit use table base])
      ((Note.inherit use table base).replay numbering state) where
  filed := outcome.filed
  scopes := by simpa [Note.replay] using outcome.scopes
  declarations := by
    rw [settled_snoc rfl rfl]
    simpa [Note.replay] using outcome.declarations
  references := by simpa [Note.replay] using outcome.references
  inheritances := by
    rw [heirs_snoc, List.map_append, ← outcome.inheritances]
    simp [Note.replay, Heir.inheritance, number]
  diagnostics := by simpa [Note.replay] using outcome.diagnostics

omit outcome in
theorem boundTable_snoc (all : List (DeclarationId × Option ScopeId)) (id other : DeclarationId)
    (table : Option ScopeId) :
    boundTable (all ++ [(id, table)]) other = if other = id then table else boundTable all other := by
  unfold boundTable
  by_cases same : other = id
  · simp [same]
  · simp [same, Ne.symm same]

theorem Outcome.snoc_tabulate (numbers : Numbers numbering .initial notes) {id : DeclarationId}
    (declared : id ∈ (namings notes).map (·.id)) (table : Option ScopeId) :
    Outcome numbering (notes ++ [.tabulate id table])
      ((Note.tabulate id table).replay numbering state) where
  filed := outcome.filed.redeclare (map_modify fun _ => rfl)
  scopes := by simpa [Note.replay] using outcome.scopes
  declarations := by
    obtain ⟨own, member, rfl⟩ := List.mem_map.mp declared
    have changed : ((Note.tabulate own.id table).replay numbering state).graph.declarations =
        state.graph.declarations.modify (numbering.declarations own.id)
          ({ · with tableScope := table.map numbering.scopes }) := rfl
    rw [changed, outcome.declarations, numbers.declarations.modify _ _ member]
    simp only [namings_append, namings_cons, namings_nil, Note.naming?, Option.toList_none,
      List.append_nil]
    refine List.map_congr_left fun naming _ => ?_
    simp only [settled, bindings_snoc, Note.binding?, Option.toList_some, boundTable_snoc,
      namings_append, namings_cons, namings_nil, Note.naming?, Option.toList_none, List.append_nil]
    split <;> simp
  references := by simpa [Note.replay] using outcome.references
  inheritances := by simpa [Note.replay] using outcome.inheritances
  diagnostics := by simpa [Note.replay] using outcome.diagnostics

end

section Declaring

variable {naming : Naming} {other : Naming}

theorem Naming.meets_iff :
    naming.meets other ↔ other.home = naming.home ∧ other.name = naming.name := by
  simp [Naming.meets]

theorem Naming.meets_eq (meets : naming.meets other) : other.meets = naming.meets := by
  obtain ⟨home, name⟩ := meets_iff.mp meets
  funext third
  rw [Naming.meets, Naming.meets, home, name]

theorem Naming.meets_self (naming : Naming) : naming.meets naming := meets_iff.mpr ⟨rfl, rfl⟩

theorem Naming.meets_comm : naming.meets other = other.meets naming := by
  simp [Naming.meets, eq_comm]

variable {all : List Naming}

theorem isSuperseded_snoc (different : other ≠ naming) :
    isSuperseded (all ++ [naming]) other =
      if other.meets naming then decide (other.home ≠ ScopeGraph.root)
      else isSuperseded all other := by
  unfold isSuperseded
  rw [List.filter_append, List.filter_singleton]
  cases other.meets naming with
  | true => simp [Ne.symm different]
  | false => simp

theorem isSuperseded_last (all : List Naming) : isSuperseded (all ++ [naming]) naming = false := by
  simp [isSuperseded, List.filter_append, naming.meets_self]

theorem isRepeated_snoc (member : other ∈ all) :
    isRepeated (all ++ [naming]) other = isRepeated all other := by
  have inside : other ∈ all.filter other.meets := List.mem_filter.mpr ⟨member, other.meets_self⟩
  unfold isRepeated
  rw [List.filter_append, List.head?_append_of_ne_nil _ (List.ne_nil_of_mem inside)]

theorem isRepeated_last (fresh : naming ∉ all) :
    isRepeated (all ++ [naming]) naming =
      (naming.home ≠ ScopeGraph.root && (all.filter naming.meets).getLast?.isSome) := by
  unfold isRepeated
  rw [List.filter_append, List.filter_singleton, naming.meets_self, cond_true]
  cases before : all.filter naming.meets with
  | nil => simp
  | cons first rest =>
    have member : first ∈ all := List.mem_of_mem_filter (before ▸ List.mem_cons_self)
    have different : first ≠ naming := fun same => fresh (same ▸ member)
    simp [different]

theorem Proper.isRoot (proper : Proper [] [] notes) (numbers : Numbers numbering .initial notes)
    {frame : Frame} (member : frame ∈ frames notes) :
    frame.kind = .root ↔ frame.id = ScopeGraph.root := by
  rcases List.mem_cons.mp member with rfl | inner
  · exact ⟨fun _ => rfl, fun _ => rfl⟩
  · obtain ⟨note, isNote, framed⟩ := List.mem_filterMap.mp inner
    have own := proper.each note isNote
    cases note with
    | scope id kind outer =>
      cases framed
      have listed : id ∈ scopeIds notes := List.mem_filterMap.mpr ⟨_, isNote, rfl⟩
      have bounds := numbers.scopes.bounds listed
      refine ⟨fun isRoot => absurd isRoot own.1, ?_⟩
      rintro rfl
      rw [(numbering.rooted _).mpr rfl] at bounds
      exact absurd bounds.1 (Nat.not_succ_le_zero 0)
    | _ => cases framed

theorem Proper.unbound (proper : Proper [] [] notes) {id : DeclarationId}
    (fresh : id ∉ (namings notes).map (·.id)) : boundTable (bindings notes) id = none := by
  have none : (bindings notes).filter (·.1 = id) = [] := by
    refine List.filter_eq_nil_iff.mpr fun binding member isOwn => fresh ?_
    obtain ⟨note, isNote, bound⟩ := List.mem_filterMap.mp member
    have own := proper.each note isNote
    cases note with
    | tabulate other table =>
      cases bound
      rw [← of_decide_eq_true isOwn]
      exact own.1
    | _ => cases bound
  rw [boundTable, none]
  rfl

theorem outline_declared (state : State) (home : ScopeId) (name : String) (kind : DeclarationKind)
    (span : Span) :
    (declared state home name kind span).graph.scopes.map outline =
      state.graph.scopes.map outline := by
  have made : (state.graph.declare home name kind span (state.seq + 1)).scopes.map outline =
      state.graph.scopes.map outline := map_modify fun _ => rfl
  unfold declared
  split
  · split <;> exact made
  · exact made

theorem Outcome.isRoot (outcome : Outcome numbering notes state)
    (numbers : Numbers numbering .initial notes) (proper : Proper [] [] notes)
    (isKnown : home ∈ known (links notes)) :
    state.graph.scopes[numbering.scopes home]?.any (·.kind = .root) =
      decide (home = ScopeGraph.root) := by
  obtain ⟨frame, member, rfl⟩ := List.mem_map.mp (map_frames notes ▸ isKnown)
  obtain ⟨scope, found, shape⟩ := outcome.scope numbers member
  have kind : scope.kind = frame.kind := congrArg Prod.fst shape
  rw [found, Option.any_some, kind]
  exact decide_eq_decide.mpr (proper.isRoot numbers member)

theorem settled_declare (different : other ≠ naming) :
    settled numbering (notes ++ [.declare naming]) other =
      if other.meets naming ∧ naming.home ≠ ScopeGraph.root then
        { settled numbering notes other with quiet := true }
      else settled numbering notes other := by
  have names : namings (notes ++ [.declare naming]) = namings notes ++ [naming] := by simp
  have tables : bindings (notes ++ [.declare naming]) = bindings notes := by simp
  rw [settled, names, tables, isSuperseded_snoc different]
  cases meets : other.meets naming with
  | false => simp [settled]
  | true =>
    have home : naming.home = other.home := (Naming.meets_iff.mp meets).1
    by_cases isRoot : other.home = ScopeGraph.root
    · simp [settled, home, isRoot, isSuperseded]
    · simp [settled, home, isRoot]

theorem quiet_settled {other latest : Naming}
    (last : ((namings notes).filter naming.meets).getLast? = some latest)
    (meets : other.meets naming)
    (different : other ≠ latest) (inner : naming.home ≠ ScopeGraph.root) :
    { settled numbering notes other with quiet := true } = settled numbering notes other := by
  have same : other.meets = naming.meets :=
    Naming.meets_eq (Naming.meets_comm.symm.trans meets)
  have superseded : isSuperseded (namings notes) other := by
    rw [isSuperseded, same, last, ← (Naming.meets_iff.mp meets).1]
    simp [inner, Ne.symm different]
  simp [settled, superseded]

theorem Outcome.declared_declarations (outcome : Outcome numbering notes state)
    (numbers : Numbers numbering .initial notes) (proper : Proper [] [] notes)
    (isKnown : naming.home ∈ known (links notes)) (fresh : naming ∉ namings notes)
    (number : numbering.stamps naming.stamp = state.seq + 1) :
    (declared state (numbering.scopes naming.home) naming.name naming.kind
        naming.span).graph.declarations =
      (namings notes).map (settled numbering (notes ++ [.declare naming])) ++
        [⟨naming.name, naming.kind, naming.span, numbering.scopes naming.home,
          numbering.stamps naming.stamp, 0, 0, none, false⟩] := by
  have apart {other : Naming} (member : other ∈ namings notes) : other ≠ naming :=
    fun same => fresh (same ▸ member)
  have latest : state.graph.latest? (numbering.scopes naming.home) naming.name =
      ((namings notes).filter naming.meets).getLast?.map fun other =>
        numbering.declarations other.id := outcome.latest numbers proper isKnown naming.name
  have kept (rest : ∀ other ∈ namings notes,
      ¬ (other.meets naming ∧ naming.home ≠ ScopeGraph.root)) :
      (namings notes).map (settled numbering (notes ++ [.declare naming])) =
        state.graph.declarations := by
    rw [outcome.declarations]
    refine List.map_congr_left fun other member => ?_
    rw [settled_declare (apart member), if_neg (rest other member)]
  unfold declared
  dsimp only
  rw [latest, outcome.isRoot numbers proper isKnown, ← number]
  cases before : ((namings notes).filter naming.meets).getLast? with
  | none =>
    have alone := List.getLast?_eq_none_iff.mp before
    rw [kept]
    · rfl
    · rintro other member ⟨meets, -⟩
      exact List.filter_eq_nil_iff.mp alone other member (Naming.meets_comm.trans meets)
  | some last =>
    have listed := List.mem_of_getLast? before
    have inside := List.mem_of_mem_filter listed
    by_cases isRoot : naming.home = ScopeGraph.root
    · rw [kept fun _ _ both => both.2 isRoot]
      simp [isRoot, ScopeGraph.declare, ScopeGraph.updateScope]
    · have there : numbering.declarations last.id < state.graph.declarations.length :=
        (List.getElem?_eq_some_iff.mp (outcome.getElem numbers inside)).1
      have changed : state.graph.declarations.modify (numbering.declarations last.id)
          ({ · with quiet := true }) =
            (namings notes).map (settled numbering (notes ++ [.declare naming])) := by
        rw [outcome.declarations, numbers.declarations.modify _ _ inside]
        refine List.map_congr_left fun other member => ?_
        rw [settled_declare (apart member)]
        by_cases same : other.id = last.id
        · obtain rfl := numbers.declarations.injective member inside same
          have meets := Naming.meets_comm.symm.trans (List.of_mem_filter listed)
          rw [if_pos rfl, if_pos ⟨meets, isRoot⟩]
        · rw [if_neg same]
          split
          · next both =>
            refine (quiet_settled before both.1 ?_ isRoot).symm
            rintro rfl
            exact same rfl
          · rfl
      rw [← changed, ← modify_append there]
      simp [isRoot, ScopeGraph.declare, ScopeGraph.updateScope, ScopeGraph.updateDeclaration]

theorem Outcome.declared_diagnostics (outcome : Outcome numbering notes state)
    (numbers : Numbers numbering .initial notes) (proper : Proper [] [] notes)
    (isKnown : naming.home ∈ known (links notes)) (fresh : naming ∉ namings notes) :
    (declared state (numbering.scopes naming.home) naming.name naming.kind naming.span).diagnostics =
      state.diagnostics ++
        if isRepeated (namings notes ++ [naming]) naming then [naming.duplicate] else [] := by
  have latest : state.graph.latest? (numbering.scopes naming.home) naming.name =
      ((namings notes).filter naming.meets).getLast?.map fun other =>
        numbering.declarations other.id := outcome.latest numbers proper isKnown naming.name
  rw [isRepeated_last fresh]
  unfold declared
  rw [latest, outcome.isRoot numbers proper isKnown]
  cases ((namings notes).filter naming.meets).getLast? with
  | none => simp
  | some last =>
    by_cases isRoot : naming.home = ScopeGraph.root
    · simp [isRoot]
    · simp [isRoot, Naming.duplicate]

theorem Outcome.snoc_declare (outcome : Outcome numbering notes state)
    (numbers : Numbers numbering .initial notes) (proper : Proper [] [] notes)
    (isKnown : naming.home ∈ known (links notes)) (fresh : naming.id ∉ (namings notes).map (·.id))
    (number : numbering.stamps naming.stamp = state.seq + 1) :
    Outcome numbering (notes ++ [.declare naming])
      ((Note.declare naming).replay numbering state) := by
  have new : naming ∉ namings notes := fun member => fresh (List.mem_map_of_mem member)
  have declarations := outcome.declared_declarations numbers proper isKnown new number
  have diagnostics := outcome.declared_diagnostics numbers proper isKnown new
  have names : namings (notes ++ [.declare naming]) = namings notes ++ [naming] := by simp
  have kept : (declared state (numbering.scopes naming.home) naming.name naming.kind
      naming.span).references = state.references ∧
      (declared state (numbering.scopes naming.home) naming.name naming.kind
        naming.span).inheritances = state.inheritances := by
    unfold declared
    split
    · split <;> exact ⟨rfl, rfl⟩
    · exact ⟨rfl, rfl⟩
  have own : settled numbering (notes ++ [.declare naming]) naming =
      ⟨naming.name, naming.kind, naming.span, numbering.scopes naming.home,
        numbering.stamps naming.stamp, 0, 0, none, naming.excused⟩ := by
    have tables : bindings (notes ++ [.declare naming]) = bindings notes := by simp
    rw [settled, names, isSuperseded_last, tables, proper.unbound fresh, Option.map_none,
      Bool.or_false]
  have length : state.graph.declarations.length = ((namings notes).map
      (settled numbering (notes ++ [.declare naming]))).length := by
    rw [outcome.declarations, List.length_map, List.length_map]
  refine ⟨Note.filed_declare outcome.filed (outcome.inside numbers isKnown), ?_, ?_, ?_, ?_, ?_⟩
  · have same : frames (notes ++ [.declare naming]) = frames notes := by simp
    rw [same, ← outcome.scopes,
      ← outline_declared state (numbering.scopes naming.home) naming.name naming.kind naming.span]
    unfold Note.replay
    dsimp only
    split <;> rfl
  · rw [names, List.map_append, List.map_singleton, own]
    unfold Note.replay
    dsimp only
    cases excused : naming.excused with
    | false =>
      rw [if_neg Bool.false_ne_true]
      exact declarations
    | true =>
      rw [if_pos rfl, ScopeGraph.updateDeclaration]
      dsimp only
      rw [declarations, length, modify_concat]
  · have same : referrals (notes ++ [.declare naming]) = referrals notes := by simp
    rw [same, ← outcome.references, ← kept.1]
    unfold Note.replay
    dsimp only
    split <;> rfl
  · have same : heirs (notes ++ [.declare naming]) = heirs notes := by simp
    rw [same, ← outcome.inheritances, ← kept.2]
    unfold Note.replay
    dsimp only
    split <;> rfl
  · have reported : (((namings notes ++ [naming]).filter
        (isRepeated (namings notes ++ [naming]))).map Naming.duplicate) =
        (declared state (numbering.scopes naming.home) naming.name naming.kind
          naming.span).diagnostics := by
      rw [diagnostics, outcome.diagnostics, List.filter_append, List.map_append,
        List.filter_congr fun other member => isRepeated_snoc member]
      congr 1
      cases repeated : isRepeated (namings notes ++ [naming]) naming <;> simp [repeated]
    rw [names, reported]
    unfold Note.replay
    dsimp only
    split <;> rfl

end Declaring

theorem outcome_replay (numbers : Numbers numbering .initial notes) (proper : Proper [] [] notes) :
    Outcome numbering notes (replay numbering notes .initial) := by
  induction notes using List.reverseRecOn with
  | nil => exact outcome_initial numbering
  | append_singleton notes note ih =>
    obtain ⟨early, late⟩ := (numbers_append numbering).mp numbers
    obtain ⟨before, own, -⟩ := proper_append.mp proper
    rw [List.nil_append, List.nil_append] at own
    have outcome := ih early before
    rw [replay_append, replay_cons, replay_nil]
    cases note with
    | scope id kind outer => exact outcome.snoc_scope id kind outer
    | declare naming =>
      have distinct : ((namings (notes ++ [.declare naming])).map (·.id)).Nodup := by
        have counted : (((namings (notes ++ [.declare naming])).map (·.id)).map
            numbering.declarations).Nodup := by
          rw [show _ = _ from numbers.declarations]
          exact List.nodup_range'
        exact counted.of_map
      have fresh : naming.id ∉ (namings notes).map (·.id) := by
        rw [namings_append, List.map_append] at distinct
        exact fun member => List.disjoint_of_nodup_append distinct member (by simp)
      exact outcome.snoc_declare early before own fresh (counts_single.mp late.stamps)
    | tabulate id table => exact outcome.snoc_tabulate early own.1 table
    | refer use name isCall isRead isWrite =>
      exact outcome.snoc_refer (counts_single.mp late.stamps) name isCall isRead isWrite
    | inherit use table base => exact outcome.snoc_inherit (counts_single.mp late.stamps) table base

end Settling

end Squirrel.Analysis
