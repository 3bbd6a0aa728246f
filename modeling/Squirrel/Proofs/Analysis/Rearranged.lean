import Squirrel.Proofs.Analysis.Inheriting
import Squirrel.Proofs.Analysis.Outcome

/-! Notes in another order. Two notes may change places if neither of them asks for what the other
one says. -/

namespace Squirrel.Analysis

section Apart

/-- What is asked for where a table inherits: a name, which is looked up like any other one if it is
`lexical`, and else in the root scope. -/
structure Appeal where
  name? : Option String
  lexical : Bool
  span : Span
  deriving DecidableEq

def appeal (base : Tree) : Appeal where
  name? := baseName? base
  lexical := base.hasLabel .reference
  span := base.span

/-- The same note, but for what does not matter in a base. -/
inductive Note.Resembles : Note → Note → Prop
  | same (note : Note) : Note.Resembles note note
  | inherit (use : Use) (table : ScopeId) {base other : Tree} (same : appeal base = appeal other) :
    Note.Resembles (.inherit use table base) (.inherit use table other)

/-- Whether a declaration may move past a use. Code inside functions sees every name of the root
scope, so for such names the order is `loose`. -/
def Naming.IsFree (loose : Bool) (naming : Naming) (use : Use) : Prop :=
  naming.home ∉ use.place.chain ∨
    (loose ∧ naming.home = ScopeGraph.root ∧ use.place.deferred)

def Note.Apart (loose : Bool) : Note → Note → Prop
  | .inherit .., _ => False
  | _, .inherit .. => False
  | .declare one, .declare two =>
    one.meets two = false ∨ (loose ∧ one.home = ScopeGraph.root ∧ two.home = ScopeGraph.root)
  | .declare naming, .refer use .. => naming.IsFree loose use
  | .refer use .., .declare naming => naming.IsFree loose use
  | .tabulate one _, .tabulate two _ => one ≠ two
  | _, _ => True

theorem Note.Apart.symm {loose : Bool} {one two : Note} (apart : one.Apart loose two) :
    two.Apart loose one := by
  cases one <;> cases two
  case declare.declare first second =>
    rcases apart with differ | ⟨isLoose, home, other⟩
    · exact .inl (Naming.meets_comm.symm.trans differ)
    · exact .inr ⟨isLoose, other, home⟩
  case tabulate.tabulate => exact Ne.symm apart
  all_goals exact apart

end Apart

/-- Notes that become others by exchanging neighbours that are apart. -/
inductive Rearranged (loose : Bool) : List Note → List Note → Prop
  | nil : Rearranged loose [] []
  | cons {note other : Note} {notes others : List Note} (like : note.Resembles other)
      (rest : Rearranged loose notes others) : Rearranged loose (note :: notes) (other :: others)
  | swap {one two : Note} (apart : one.Apart loose two) (notes : List Note) :
    Rearranged loose (one :: two :: notes) (two :: one :: notes)
  | trans {first second third : List Note} (one : Rearranged loose first second)
      (two : Rearranged loose second third) : Rearranged loose first third

namespace Rearranged

variable {loose : Bool} {notes others more further : List Note}

theorem refl (notes : List Note) : Rearranged loose notes notes := by
  induction notes with
  | nil => exact .nil
  | cons note notes ih => exact .cons (.same note) ih

theorem prepend (notes : List Note) (rest : Rearranged loose more further) :
    Rearranged loose (notes ++ more) (notes ++ further) := by
  induction notes with
  | nil => exact rest
  | cons note notes ih => exact .cons (.same note) ih

theorem postpend (first : Rearranged loose notes others) (more : List Note) :
    Rearranged loose (notes ++ more) (others ++ more) := by
  induction first with
  | nil => exact refl more
  | cons like _ ih => exact .cons like ih
  | swap apart notes => exact .swap apart _
  | trans _ _ one two => exact one.trans two

theorem append (first : Rearranged loose notes others) (rest : Rearranged loose more further) :
    Rearranged loose (notes ++ more) (others ++ further) :=
  (postpend first more).trans (prepend others rest)

theorem filterMap_eq {β : Type} (rearranged : Rearranged loose notes others)
    {view : Note → Option β} (blind : ∀ one two, one.Resembles two → view one = view two)
    (kept : ∀ one two, one.Apart loose two → ∀ x ∈ view one, ∀ y ∈ view two, x = y) :
    notes.filterMap view = others.filterMap view := by
  induction rearranged with
  | nil => rfl
  | cons like _ ih => rw [List.filterMap_cons, List.filterMap_cons, blind _ _ like, ih]
  | @swap one two apart notes =>
    simp only [List.filterMap_cons]
    cases first : view one with
    | none => rfl
    | some x =>
      cases second : view two with
      | none => rfl
      | some y => rw [kept _ _ apart x first y second]
  | trans _ _ one two => exact one.trans two

theorem filterMap_perm {β : Type} (rearranged : Rearranged loose notes others)
    {view : Note → Option β} (blind : ∀ one two, one.Resembles two → view one = view two) :
    (notes.filterMap view).Perm (others.filterMap view) := by
  induction rearranged with
  | nil => exact .refl _
  | cons like _ ih =>
    rw [List.filterMap_cons, List.filterMap_cons, blind _ _ like]
    split
    · exact ih
    · exact ih.cons _
  | swap apart notes => exact (List.Perm.swap _ _ _).filterMap view
  | trans _ _ one two => exact one.trans two

theorem exchange (apart : ∀ one ∈ notes, ∀ two ∈ others, one.Apart loose two) :
    Rearranged loose (notes ++ others) (others ++ notes) := by
  have past (note : Note) (others : List Note) (free : ∀ two ∈ others, note.Apart loose two) :
      Rearranged loose (note :: others) (others ++ [note]) := by
    induction others with
    | nil => exact refl [note]
    | cons other others ih =>
      obtain ⟨first, rest⟩ := List.forall_mem_cons.mp free
      exact .trans (.swap first others) (.cons (.same other) (ih rest))
  induction notes with
  | nil =>
    rw [List.nil_append, List.append_nil]
    exact refl others
  | cons note notes ih =>
    obtain ⟨first, rest⟩ := List.forall_mem_cons.mp apart
    have moved := postpend (past note others first) notes
    rw [List.append_assoc] at moved
    exact .trans (.cons (.same note) (ih rest)) moved

theorem flatten {blocks sorted : List (List Note)} (perm : blocks.Perm sorted)
    (apart : blocks.Pairwise fun first second => ∀ one ∈ first, ∀ two ∈ second, one.Apart loose two)
    : Rearranged loose blocks.flatten sorted.flatten := by
  induction perm with
  | nil => exact .nil
  | cons block _ ih => exact prepend block (ih (List.pairwise_cons.mp apart).2)
  | swap first second rest =>
    simp only [List.flatten_cons, ← List.append_assoc]
    exact postpend (exchange ((List.pairwise_cons.mp apart).1 first List.mem_cons_self)) _
  | @trans blocks middle sorted perm _ ih₁ ih₂ =>
    refine (ih₁ apart).trans (ih₂ (perm.pairwise apart ?_))
    intro first second free two isTwo one isOne
    exact (free one isOne two isTwo).symm

end Rearranged

section Views

variable {loose : Bool} {notes others : List Note}

theorem blind_of {β : Type} {view : Note → Option β} (inherits : ∀ use table base other,
    view (.inherit use table base) = view (.inherit use table other)) :
    ∀ one two : Note, one.Resembles two → view one = view two := by
  intro one two like
  cases like with
  | same => rfl
  | inherit use table _ => exact inherits use table _ _

variable (rearranged : Rearranged loose notes others)

include rearranged

theorem Rearranged.scopeIds : (scopeIds notes).Perm (scopeIds others) :=
  rearranged.filterMap_perm (blind_of fun _ _ _ _ => rfl)

theorem Rearranged.namings : (namings notes).Perm (namings others) :=
  rearranged.filterMap_perm (blind_of fun _ _ _ _ => rfl)

theorem Rearranged.stamps : (stamps notes).Perm (stamps others) :=
  rearranged.filterMap_perm (blind_of fun _ _ _ _ => rfl)

theorem Rearranged.frames : (frames notes).Perm (frames others) :=
  (rearranged.filterMap_perm (blind_of fun _ _ _ _ => rfl)).cons _

theorem Rearranged.referrals : (referrals notes).Perm (referrals others) :=
  rearranged.filterMap_perm (blind_of fun _ _ _ _ => rfl)

theorem Rearranged.meeting {home : ScopeId} (strict : loose → home ≠ ScopeGraph.root)
    (name : String) :
    ((Analysis.namings notes).filter fun naming => naming.home = home && naming.name = name) =
      (Analysis.namings others).filter fun naming => naming.home = home && naming.name = name := by
  have view (notes : List Note) : (Analysis.namings notes).filter
      (fun naming => naming.home = home && naming.name = name) = notes.filterMap fun note =>
        note.naming?.filter fun naming => naming.home = home && naming.name = name := by
    rw [Analysis.namings, List.filter_filterMap]
  rw [view, view]
  refine rearranged.filterMap_eq (blind_of fun _ _ _ _ => rfl) fun one two apart x isX y isY => ?_
  obtain ⟨named, here⟩ := Option.filter_eq_some_iff.mp isX
  obtain ⟨also, there⟩ := Option.filter_eq_some_iff.mp isY
  rw [Bool.and_eq_true, decide_eq_true_eq, decide_eq_true_eq] at here there
  cases one with
  | declare first =>
    cases two with
    | declare second =>
      cases named
      cases also
      rcases apart with differ | ⟨isLoose, isRoot, -⟩
      · have meets : x.meets y :=
          Naming.meets_iff.mpr ⟨there.1.trans here.1.symm, there.2.trans here.2.symm⟩
        rw [differ] at meets
        cases meets
      · exact absurd (here.1.symm.trans isRoot) (strict isLoose)
    | _ => cases also
  | _ => cases named

theorem Rearranged.binding (id : DeclarationId) :
    boundTable (bindings notes) id = boundTable (bindings others) id := by
  have view (notes : List Note) : (bindings notes).filter (·.1 = id) =
      notes.filterMap fun note => note.binding?.filter (·.1 = id) := by
    rw [bindings, List.filter_filterMap]
  unfold boundTable
  rw [view, view, rearranged.filterMap_eq (blind_of fun _ _ _ _ => rfl)]
  intro one two apart x isX y isY
  obtain ⟨bound, here⟩ := Option.filter_eq_some_iff.mp isX
  obtain ⟨also, there⟩ := Option.filter_eq_some_iff.mp isY
  cases one with
  | tabulate first table =>
    cases two with
    | tabulate second other =>
      cases bound
      cases also
      exact absurd ((of_decide_eq_true here).trans (of_decide_eq_true there).symm) apart
    | _ => cases also
  | _ => cases bound

omit rearranged in
def Heir.appeal (heir : Heir) : Use × ScopeId × Appeal :=
  (heir.use, heir.table, Analysis.appeal heir.base)

theorem Rearranged.heirs :
    (Analysis.heirs notes).map Heir.appeal = (Analysis.heirs others).map Heir.appeal := by
  rw [Analysis.heirs, Analysis.heirs, List.map_filterMap, List.map_filterMap]
  refine rearranged.filterMap_eq (fun one two like => ?_) fun one two apart x isX y isY => ?_
  · cases like with
    | same => rfl
    | inherit use table same =>
      simp only [Note.heir?, Option.map_some, Heir.appeal, same]
  · cases one with
    | inherit use table base => exact apart.elim
    | _ => cases isX

end Views

variable {names : List Nat}

section Ordering

variable {loose : Bool} {notes others : List Note}

theorem Counts.increasing {number : Nat → Nat} {first : Nat} (counts : Counts number first names) :
    names.Pairwise fun one two => number one < number two := by
  have sorted : (names.map number).Pairwise (· < ·) := by
    rw [show names.map number = _ from counts]
    exact List.pairwise_lt_range'
  exact List.pairwise_map.mp sorted

theorem lt_iff_of_pairwise {number other : Nat → Nat}
    (one : names.Pairwise fun first second => number first < number second)
    (two : names.Pairwise fun first second => other first < other second) {first second : Nat}
    (early : first ∈ names) (late : second ∈ names) :
    number first < number second ↔ other first < other second := by
  induction names with
  | nil => cases early
  | cons name names ih =>
    obtain ⟨before, rest⟩ := List.pairwise_cons.mp one
    obtain ⟨before', rest'⟩ := List.pairwise_cons.mp two
    rcases List.mem_cons.mp early with rfl | inside
    · rcases List.mem_cons.mp late with rfl | further
      · exact iff_of_false (Nat.lt_irrefl _) (Nat.lt_irrefl _)
      · exact iff_of_true (before second further) (before' second further)
    · rcases List.mem_cons.mp late with rfl | further
      · exact iff_of_false (Nat.lt_asymm (before first inside)) (Nat.lt_asymm (before' first inside))
      · exact ih rest rest' inside further

theorem filterMap_sublist {α β : Type} {view wider : α → Option β}
    (shows : ∀ value x, view value = some x → wider value = some x) (values : List α) :
    (values.filterMap view).Sublist (values.filterMap wider) := by
  induction values with
  | nil => exact .slnil
  | cons value values ih =>
    cases seen : view value with
    | some x =>
      rw [List.filterMap_cons_some seen, List.filterMap_cons_some (shows value x seen)]
      exact ih.cons_cons x
    | none =>
      rw [List.filterMap_cons_none seen, List.filterMap_cons]
      split
      · exact ih
      · exact ih.cons _

@[simp] def Note.use? : Note → Option Use
  | .refer use _ _ _ _ => some use
  | .inherit use _ _ => some use
  | _ => none

def Note.between (naming : Naming) (use : Use) (note : Note) : Option Nat :=
  if note.naming? = some naming ∨ note.use? = some use then note.stamp? else none

variable {naming : Naming}

theorem Note.between_eq_some {use : Use} {note : Note} {stamp : Nat} :
    note.between naming use = some stamp ↔
      (note.naming? = some naming ∧ naming.stamp = stamp) ∨
        (note.use? = some use ∧ use.stamp = stamp) := by
  unfold Note.between
  cases note with
  | declare named =>
    simp only [Note.naming?, Note.use?, Note.stamp?, Option.some.injEq, reduceCtorEq, or_false,
      false_and]
    constructor
    · intro given
      split at given
      · next same => exact ⟨same, by rw [← same]; exact Option.some.inj given⟩
      · cases given
    · rintro ⟨rfl, rfl⟩
      rw [if_pos rfl]
  | refer own _ _ _ _ | inherit own _ _ =>
    simp only [Note.naming?, Note.use?, Note.stamp?, Option.some.injEq, reduceCtorEq, false_or,
      false_and]
    constructor
    · intro given
      split at given
      · next same => exact ⟨same, by rw [← same]; exact Option.some.inj given⟩
      · cases given
    · rintro ⟨rfl, rfl⟩
      rw [if_pos rfl]
  | scope | tabulate => simp

theorem Note.Apart.isFree {one two : Note} {use : Use} (apart : one.Apart loose two)
    (declares : one.naming? = some naming) (uses : two.use? = some use) :
    naming.IsFree loose use := by
  cases one with
  | declare named =>
    cases declares
    cases two with
    | refer own =>
      cases uses
      exact apart
    | inherit => exact apart.elim
    | _ => cases uses
  | _ => cases declares

theorem Rearranged.lt_iff (rearranged : Rearranged loose notes others) {numbering other : Numbering}
    (numbers : Numbers numbering .initial notes) (renumbers : Numbers other .initial others)
    (declared : naming ∈ Analysis.namings notes) {note : Note} (inside : note ∈ notes) {use : Use}
    (uses : note.use? = some use) (bound : ¬ naming.IsFree loose use) :
    numbering.stamps naming.stamp < numbering.stamps use.stamp ↔
      other.stamps naming.stamp < other.stamps use.stamp := by
  have same : notes.filterMap (Note.between naming use) =
      others.filterMap (Note.between naming use) := by
    refine rearranged.filterMap_eq (blind_of fun _ _ _ _ => rfl) fun one two apart x isX y isY => ?_
    rcases Note.between_eq_some.mp isX with ⟨declares, rfl⟩ | ⟨isUse, rfl⟩ <;>
      rcases Note.between_eq_some.mp isY with ⟨again, rfl⟩ | ⟨isUse', rfl⟩
    · rfl
    · exact absurd (apart.isFree declares isUse') bound
    · exact absurd (apart.symm.isFree again isUse) bound
    · rfl
  have sorted (notes : List Note) {numbering : Numbering}
      (numbers : Numbers numbering .initial notes) :
      (notes.filterMap (Note.between naming use)).Pairwise fun first second =>
        numbering.stamps first < numbering.stamps second := by
    refine numbers.stamps.increasing.sublist (filterMap_sublist (fun note stamp given => ?_) notes)
    unfold Note.between at given
    split at given
    · exact given
    · cases given
  obtain ⟨declaring, isNote, declares⟩ := List.mem_filterMap.mp declared
  have late := sorted others renumbers
  rw [← same] at late
  exact lt_iff_of_pairwise (sorted notes numbers) late
    (List.mem_filterMap.mpr ⟨declaring, isNote, Note.between_eq_some.mpr (.inl ⟨declares, rfl⟩)⟩)
    (List.mem_filterMap.mpr ⟨note, inside, Note.between_eq_some.mpr (.inr ⟨uses, rfl⟩)⟩)

end Ordering

section Renumbering

theorem counts_idxOf (distinct : names.Nodup) (first : Nat) :
    Counts (fun name => names.idxOf name + first) first names := by
  refine List.ext_getElem (by simp) fun place inside _ => ?_
  rw [List.length_map] at inside
  rw [List.getElem_map, distinct.idxOf_getElem place inside, List.getElem_range', Nat.one_mul,
    Nat.add_comm]

def Numbering.along (notes : List Note) : Numbering where
  scopes id := (ScopeGraph.root :: scopeIds notes).idxOf id
  declarations id := ((namings notes).map (·.id)).idxOf id
  stamps stamp := (Analysis.stamps notes).idxOf stamp + 1
  rooted id := by
    by_cases same : id = ScopeGraph.root
    · rw [same, List.idxOf_cons_self]
      exact iff_of_true rfl rfl
    · rw [List.idxOf_cons_ne _ (Ne.symm same)]
      exact iff_of_false (Nat.succ_ne_zero _) same

structure Distinct (notes : List Note) : Prop where
  scopes : (ScopeGraph.root :: scopeIds notes).Nodup
  declarations : ((namings notes).map (·.id)).Nodup
  stamps : (stamps notes).Nodup

theorem Distinct.numbers {notes : List Note} (distinct : Distinct notes) :
    Numbers (.along notes) .initial notes where
  scopes := (counts_cons.mp (counts_idxOf distinct.scopes 0)).2
  declarations := counts_idxOf distinct.declarations 0
  stamps := counts_idxOf distinct.stamps 1

theorem Numbers.distinct {numbering : Numbering} {notes : List Note}
    (numbers : Numbers numbering .initial notes) : Distinct notes := by
  have nodup {number : Nat → Nat} {first : Nat} {names : List Nat}
      (counts : Counts number first names) : names.Nodup :=
    counts.increasing.imp fun less same => Nat.ne_of_lt less (congrArg number same)
  have scopes := counts_cons.mpr ⟨(numbering.rooted ScopeGraph.root).mpr rfl, numbers.scopes⟩
  exact ⟨nodup scopes, nodup numbers.declarations, nodup numbers.stamps⟩

theorem Rearranged.distinct {loose : Bool} {notes others : List Note}
    (rearranged : Rearranged loose notes others) (distinct : Distinct notes) : Distinct others where
  scopes := (rearranged.scopeIds.cons _).nodup distinct.scopes
  declarations := (rearranged.namings.map _).nodup distinct.declarations
  stamps := rearranged.stamps.nodup distinct.stamps

end Renumbering

end Squirrel.Analysis
