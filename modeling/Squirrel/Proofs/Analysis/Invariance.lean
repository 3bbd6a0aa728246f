import Squirrel.Proofs.Analysis.Mirrors

/-! Two walks that leave the same notes in another order find the same faults. -/

namespace Squirrel.Analysis

open ScopeGraph

/-- A walk that leaves some notes, and what it collects. -/
structure Walked (numbering : Numbering) (notes : List Note) (state : State) : Prop where
  numbers : Numbers numbering .initial notes
  proper : Proper [] [] notes
  outcome : Outcome numbering notes state
  collected : Collected state
  within : state.InRange

/-- Two walks, the second of which leaves the notes of the first one in another order. The names in
the notes are the numbers of the first walk. If the order is `loose`, then all names are used inside
functions, no name of the root scope can be reported as unused, and no table inherits. -/
structure TwoWalks (loose : Bool) (numbering : Numbering) (notes others : List Note)
    (state after : State) : Prop where
  rearranged : Rearranged loose notes others
  first : Walked .same notes state
  second : Walked numbering others after
  late : loose → ∀ note ∈ notes, ∀ use ∈ note.use?, use.place.deferred
  counted : loose → ∀ naming ∈ namings notes, naming.home = root →
    naming.kind ≠ .localVariable ∧ naming.kind ≠ .parameter
  unlinked : loose → heirs notes = []

variable {loose : Bool} {numbering : Numbering} {notes others : List Note} {state after : State}

section Graphs

variable {id : ScopeId}

theorem Outcome.frame (outcome : Outcome .same notes state) (numbers : Numbers .same .initial notes)
    {scope : Scope} (found : state.graph.scopes[id]? = some scope) :
    ∃ frame ∈ frames notes, frame.id = id ∧ outline scope = (frame.kind, frame.outer?, none, false) := by
  have seen := congrArg (fun listed => listed[id]?) outcome.scopes
  simp only [List.getElem?_map, found, Option.map_some] at seen
  obtain ⟨frame, isFrame, same⟩ := Option.map_eq_some_iff.mp seen.symm
  have outer : frame.outer?.map Numbering.same.scopes = frame.outer? := Option.map_id_apply
  rw [outer] at same
  exact ⟨frame, List.mem_of_getElem? isFrame, numbers.frames.index isFrame, same.symm⟩

theorem Outcome.naming (outcome : Outcome .same notes state)
    (numbers : Numbers .same .initial notes) {number : DeclarationId} {declaration : Declaration}
    (found : state.graph.declarations[number]? = some declaration) :
    ∃ naming ∈ namings notes, naming.id = number ∧ declaration = settled .same notes naming := by
  rw [outcome.declarations, List.getElem?_map] at found
  obtain ⟨naming, isNaming, rfl⟩ := Option.map_eq_some_iff.mp found
  exact ⟨naming, List.mem_of_getElem? isNaming, numbers.declarations.index isNaming, rfl⟩

theorem Outcome.isKnown (outcome : Outcome .same notes state)
    (numbers : Numbers .same .initial notes) (inside : id < state.graph.scopes.length) :
    id ∈ known (links notes) := by
  obtain ⟨frame, member, rfl, -⟩ := outcome.frame numbers (List.getElem?_eq_getElem inside)
  rw [← map_frames]
  exact List.mem_map_of_mem member

theorem Rearranged.known (rearranged : Rearranged loose notes others) :
    (known (links notes)).Perm (known (links others)) := by
  rw [← map_frames, ← map_frames]
  exact rearranged.frames.map _

namespace TwoWalks

variable (walks : TwoWalks loose numbering notes others state after)

include walks

theorem names (inside : id < state.graph.scopes.length) (strict : loose → id ≠ root)
    (name : String) :
    after.graph.declarationsOf (numbering.scopes id) name =
      (state.graph.declarationsOf id name).map numbering.declarations := by
  have isKnown := walks.first.outcome.isKnown walks.first.numbers inside
  have early := walks.first.outcome.declarationsOf walks.first.numbers walks.first.proper isKnown name
  have late := walks.second.outcome.declarationsOf walks.second.numbers walks.second.proper
    (walks.rearranged.known.subset isKnown) name
  rw [show Numbering.same.scopes id = id from rfl] at early
  rw [early, late, walks.rearranged.meeting strict, List.map_map]
  rfl

theorem rootNames (name : String) :
    after.graph.declarationsOf root name = [] ↔ state.graph.declarationsOf root name = [] := by
  have early := walks.first.outcome.declarationsOf walks.first.numbers walks.first.proper
    (List.mem_cons_self : root ∈ known (links notes)) name
  have late := walks.second.outcome.declarationsOf walks.second.numbers walks.second.proper
    (List.mem_cons_self : root ∈ known (links others)) name
  rw [show Numbering.same.scopes root = root from rfl] at early
  rw [numbering.root] at late
  have perm := walks.rearranged.namings.filter fun naming => naming.home = root && naming.name = name
  rw [early, late, List.map_eq_nil_iff, List.map_eq_nil_iff]
  exact ⟨fun empty => (empty ▸ perm).eq_nil, fun empty => (empty ▸ perm.symm).eq_nil⟩

theorem mirrors : Mirrors loose numbering state.graph after.graph where
  scopes {id scope} found := by
    obtain ⟨frame, member, rfl, same⟩ := walks.first.outcome.frame walks.first.numbers found
    obtain ⟨other, isOther, outlined⟩ :=
      walks.second.outcome.scope walks.second.numbers (walks.rearranged.frames.subset member)
    refine ⟨other, isOther, ?_⟩
    rw [outlined, same]
    rfl
  injective {id other} inside within same := by
    have isKnown {id : ScopeId} (inside : id < state.graph.scopes.length) :=
      walks.rearranged.known.subset (walks.first.outcome.isKnown walks.first.numbers inside)
    exact walks.second.numbers.injective (isKnown inside) (isKnown within) same
  rooted := by
    obtain ⟨scope, found, same⟩ := walks.first.outcome.scope walks.first.numbers
      (List.mem_cons_self : _ ∈ frames notes)
    exact ⟨scope, found, congrArg Prod.fst same⟩
  declarations {number declaration} found := by
    obtain ⟨naming, member, rfl, rfl⟩ := walks.first.outcome.naming walks.first.numbers found
    refine ⟨_, walks.second.outcome.getElem walks.second.numbers (walks.rearranged.namings.subset member), ?_⟩
    simp only [settled, walks.rearranged.binding]
    exact congrArg _ Option.map_id_apply.symm
  names inside strict name := walks.names inside strict name
  rootNames := walks.rootNames

end TwoWalks

end Graphs

section Asking

theorem Chained.outer {outer : List (ScopeId × ScopeId)} {chain : List ScopeId}
    (chained : Chained outer chain) :
    ∀ id ∈ chain, id = root ∨ ∃ next ∈ chain, (id, next) ∈ outer := by
  induction chain with
  | nil => exact chained.elim
  | cons id chain ih =>
    cases chain with
    | nil =>
      rintro other member
      rw [List.mem_singleton.mp member]
      exact .inl chained
    | cons next rest =>
      intro other member
      rcases List.mem_cons.mp member with rfl | inner
      · exact .inr ⟨next, List.mem_cons_of_mem _ List.mem_cons_self, chained.1⟩
      · rcases ih chained.2 other inner with isRoot | ⟨further, isFurther, linked⟩
        · exact .inl isRoot
        · exact .inr ⟨further, List.mem_cons_of_mem _ isFurther, linked⟩

theorem Chained.rooted {outer : List (ScopeId × ScopeId)} {chain : List ScopeId}
    (chained : Chained outer chain) : root ∈ chain := by
  induction chain with
  | nil => exact chained.elim
  | cons id chain ih =>
    cases chain with
    | nil => exact List.mem_singleton.mpr (Eq.symm chained)
    | cons next rest => exact List.mem_cons_of_mem _ (ih chained.2)

theorem mem_frames {id outer : ScopeId} (linked : (id, outer) ∈ links notes) :
    ∃ frame ∈ frames notes, frame.id = id ∧ frame.outer? = some outer := by
  obtain ⟨note, isNote, link⟩ := List.mem_filterMap.mp linked
  cases note with
  | scope own kind around =>
    cases link
    exact ⟨_, List.mem_cons_of_mem _ (List.mem_filterMap.mpr ⟨_, isNote, rfl⟩), rfl, rfl⟩
  | _ => cases link

theorem Outcome.enclosed (outcome : Outcome .same notes state)
    (numbers : Numbers .same .initial notes) {place : Place}
    (chained : Chained (links notes) place.chain) :
    Enclosed state.graph place.chain place.here := by
  refine ⟨List.mem_cons_self, fun other member scope found next isNext => ?_⟩
  obtain ⟨frame, isFrame, rfl, same⟩ := outcome.frame numbers found
  have parent : scope.parent = frame.outer? := congrArg (·.2.1) same
  rw [parent] at isNext
  rcases chained.outer frame.id member with isRoot | ⟨further, isFurther, linked⟩
  · obtain rfl := numbers.frames.injective isFrame (List.mem_cons_self : _ ∈ frames notes) isRoot
    cases isNext
  · obtain ⟨another, isAnother, sameId, outer⟩ := mem_frames linked
    obtain rfl := numbers.frames.injective isAnother isFrame sameId
    cases outer.symm.trans isNext
    exact isFurther

theorem Proper.chained (proper : Proper [] [] notes) {note : Note} (member : note ∈ notes)
    {use : Use} (uses : note.use? = some use) : Chained (links notes) use.place.chain := by
  have own := proper.each note member
  rw [List.nil_append, List.nil_append] at own
  cases note with
  | refer used name isCall isRead isWrite =>
    cases uses
    exact own
  | inherit used table base =>
    cases uses
    exact own.2
  | _ => cases uses

namespace TwoWalks

variable (walks : TwoWalks loose numbering notes others state after)

include walks

theorem asks {note : Note} (member : note ∈ notes) {use : Use} (uses : note.use? = some use)
    {first second : Reference}
    (asked : first.scope = use.place.here ∧ first.seq = use.stamp ∧
      first.deferred = use.place.deferred)
    (again : second.scope = numbering.scopes use.place.here ∧
      second.seq = numbering.stamps use.stamp ∧ second.deferred = use.place.deferred)
    (name : second.name = first.name) :
    Asks loose numbering state.graph after.graph use.place.chain first second := by
  obtain ⟨scope, seq, deferred⟩ := asked
  obtain ⟨scope', seq', deferred'⟩ := again
  have chained := walks.first.proper.chained member uses
  refine ⟨?_, ?_, name, ?_, deferred'.trans deferred.symm, ?_, ?_⟩
  · rw [scope]
    exact walks.first.outcome.inside walks.first.numbers chained.here
  · rw [scope]
    exact walks.first.outcome.enclosed walks.first.numbers chained
  · rw [scope', scope]
  · rw [deferred]
    exact fun isLoose => walks.late isLoose note member use uses
  · intro id around strict number listed
    have isKnown := chained.subset id around
    have names := walks.first.outcome.declarationsOf walks.first.numbers walks.first.proper isKnown first.name
    rw [show Numbering.same.scopes id = id from rfl] at names
    rw [names] at listed
    obtain ⟨naming, here, rfl⟩ := List.mem_map.mp listed
    obtain ⟨declared, home⟩ := List.mem_filter.mp here
    have isHome : naming.home = id := by simpa using (Bool.and_eq_true_iff.mp home).1
    have bound : ¬ naming.IsFree loose use := by
      rintro (away | ⟨isLoose, isRoot, -⟩)
      · exact away (isHome ▸ around)
      · exact strict isLoose (isHome ▸ isRoot)
    have order := walks.rearranged.lt_iff walks.first.numbers walks.second.numbers declared member uses bound
    have found := walks.first.outcome.getElem walks.first.numbers declared
    have found' := walks.second.outcome.getElem walks.second.numbers (walks.rearranged.namings.subset declared)
    unfold isBefore
    rw [show Numbering.same.declarations naming.id = naming.id from rfl] at found ⊢
    rw [found, found', Option.any_some, Option.any_some, seq, seq']
    exact decide_eq_decide.mpr order.symm

theorem refers {referral : Referral} (member : referral ∈ referrals notes) :
    Asks loose numbering state.graph after.graph referral.use.place.chain
      (referral.reference .same) (referral.reference numbering) := by
  obtain ⟨note, isNote, refers⟩ := List.mem_filterMap.mp member
  cases note with
  | refer use name isCall isRead isWrite =>
    cases refers
    exact walks.asks isNote rfl ⟨rfl, rfl, rfl⟩ ⟨rfl, rfl, rfl⟩ rfl
  | _ => cases refers

theorem inherits (strict : loose = false) :
    List.Forall₂ (fun first second =>
      ∃ around, Appeals numbering state.graph after.graph around first second)
      state.inheritances after.inheritances := by
  subst strict
  rw [walks.first.outcome.inheritances, walks.second.outcome.inheritances,
    List.forall₂_map_left_iff, List.forall₂_map_right_iff]
  have appeals := walks.rearranged.heirs
  rw [← List.forall₂_eq_eq_eq, List.forall₂_map_left_iff, List.forall₂_map_right_iff] at appeals
  have listed := (List.forall₂_and_left _ _).mpr ⟨fun heir member => (member : heir ∈ heirs notes), appeals⟩
  refine listed.imp fun heir other ⟨member, same⟩ => ?_
  obtain ⟨note, isNote, inherits⟩ := List.mem_filterMap.mp member
  obtain ⟨use, table, base⟩ := heir
  obtain ⟨use', table', base'⟩ := other
  simp only [Heir.appeal, Prod.mk.injEq] at same
  obtain ⟨rfl, rfl, sameBase⟩ := same
  cases note with
  | inherit used own asked =>
    cases inherits
    have proper := walks.first.proper.each _ isNote
    rw [List.nil_append] at proper
    exact ⟨use.place.chain, walks.first.outcome.inside walks.first.numbers proper.1, rfl,
      sameBase.symm, (walks.first.proper.chained isNote rfl).rooted,
      fun name => walks.asks isNote rfl ⟨rfl, rfl, rfl⟩ ⟨rfl, rfl, rfl⟩ rfl⟩
  | _ => cases inherits

end TwoWalks

end Asking

section Diagnostics

variable {naming : Naming}

theorem Rearranged.meets (rearranged : Rearranged loose notes others) (inner : naming.home ≠ root) :
    (Analysis.namings others).filter naming.meets = (Analysis.namings notes).filter naming.meets :=
  (rearranged.meeting (fun _ => inner) naming.name).symm

def State.linked (state : State) : Resolved :=
  state.inheritances.foldl Resolved.linking ⟨state.graph, state.diagnostics, []⟩

theorem Walked.linked (walked : Walked numbering notes state) :
    state.inheritances.foldlM resolveInheritance ⟨state.graph, state.diagnostics, []⟩ =
        .ok state.linked ∧ Linked state.graph.declarations state.linked ∧
      state.graph.scopes.length = state.linked.graph.scopes.length :=
  foldlM_linking (linked_collected walked.collected walked.within) walked.within.inheritances

theorem keeps_linked (state : State) : Keeps state.graph state.linked.graph :=
  keeps_foldl ⟨state.graph, state.diagnostics, []⟩ state.inheritances

theorem Walked.home (walked : Walked numbering notes state) (declared : naming ∈ namings notes)
    {name : String}
    (listed : numbering.declarations naming.id ∈ state.linked.graph.declarationsOf root name) :
    naming.home = root := by
  unfold declarationsOf at listed
  rw [(keeps_linked state).declarations] at listed
  have here := List.of_mem_filter listed
  rw [walked.outcome.getElem walked.numbers declared, Option.any_some, decide_eq_true_eq] at here
  exact (numbering.rooted _).mp here.1

theorem perm_reports {α β γ : Type} {values others : List α} (perm : values.Perm others)
    {make remake : α → β} {test retest : β → Bool} {report : β → γ}
    (tests : ∀ value ∈ values, retest (remake value) = test (make value))
    (reports : ∀ value ∈ values, report (remake value) = report (make value)) :
    (((values.map make).filter test).map report).Perm
      (((others.map remake).filter retest).map report) := by
  rw [List.filter_map, List.filter_map, List.map_map, List.map_map]
  have tested : values.filter (test ∘ make) = values.filter (retest ∘ remake) :=
    List.filter_congr fun value member => (tests value member).symm
  have reported : (values.filter (retest ∘ remake)).map (report ∘ make) =
      (values.filter (retest ∘ remake)).map (report ∘ remake) :=
    List.map_congr_left fun value member => (reports value (List.mem_of_mem_filter member)).symm
  rw [tested, reported]
  exact (perm.filter _).map _

def Naming.tallied (numbering : Numbering) (notes : List Note) (state : State) (naming : Naming) :
    Declaration :=
  { settled numbering notes naming with
    reads := uses state.linked.graph state.references (·.isRead)
      (numbering.declarations naming.id)
    writes := uses state.linked.graph state.references (·.isWrite)
      (numbering.declarations naming.id) }

theorem Walked.tallied (walked : Walked numbering notes state) :
    (counting state.linked.graph state.references).declarations =
      (namings notes).map (Naming.tallied numbering notes state) := by
  refine List.ext_getElem? fun number => ?_
  rw [getElem_counting, walked.linked.2.1.declarations, walked.outcome.declarations,
    List.getElem?_map, List.getElem?_map]
  cases found : (namings notes)[number]? with
  | none => rfl
  | some naming =>
    rw [Option.map_some, Option.map_some, Option.map_some, ← walked.numbers.declarations.index found]
    simp [Naming.tallied, settled]

namespace TwoWalks

variable (walks : TwoWalks loose numbering notes others state after)

include walks

theorem duplicates : state.diagnostics.Perm after.diagnostics := by
  rw [walks.first.outcome.diagnostics, walks.second.outcome.diagnostics]
  refine List.Perm.map _ ?_
  have same : (namings others).filter (isRepeated (namings others)) =
      (namings others).filter (isRepeated (namings notes)) := by
    refine List.filter_congr fun naming _ => ?_
    unfold isRepeated
    by_cases isRoot : naming.home = root
    · simp [isRoot]
    · rw [walks.rearranged.meets isRoot]
  rw [same]
  exact walks.rearranged.namings.filter _

theorem linked : ∃ added,
    Mirrors loose numbering state.linked.graph after.linked.graph ∧
      state.linked.diagnostics = state.diagnostics ++ added ∧
        after.linked.diagnostics = after.diagnostics ++ added := by
  cases isLoose : loose with
  | false =>
    have alike := alike_foldl (linked_collected walks.first.collected walks.first.within)
      (linked_collected walks.second.collected walks.second.within) (isLoose ▸ walks.mirrors)
      (walks.inherits isLoose)
    obtain ⟨mirrors, added, early, late⟩ := alike
    exact ⟨added, mirrors, early, late⟩
  | true =>
    have none := walks.unlinked isLoose
    have none' : heirs others = [] := by
      have appeals := walks.rearranged.heirs
      rw [none] at appeals
      exact List.map_eq_nil_iff.mp appeals.symm
    refine ⟨[], ?_, ?_, ?_⟩
    · unfold State.linked
      rw [walks.first.outcome.inheritances, walks.second.outcome.inheritances, none, none']
      exact isLoose ▸ walks.mirrors
    · unfold State.linked
      rw [walks.first.outcome.inheritances, none]
      exact (List.append_nil _).symm
    · unfold State.linked
      rw [walks.second.outcome.inheritances, none']
      exact (List.append_nil _).symm

theorem undeclared (known : List String) :
    ((state.references.filter fun reference => isUndeclared known state.linked.graph
        (state.linked.graph.visits reference.scope) reference).map undeclaredAt).Perm
      ((after.references.filter fun reference => isUndeclared known after.linked.graph
        (after.linked.graph.visits reference.scope) reference).map undeclaredAt) := by
  obtain ⟨-, mirrors, -⟩ := walks.linked
  rw [walks.first.outcome.references, walks.second.outcome.references]
  refine perm_reports walks.rearranged.referrals (fun referral member => ?_) fun _ _ => rfl
  exact mirrors.isUndeclared walks.first.linked.2.1.settling walks.second.linked.2.1.settling
    ((walks.refers member).keep (keeps_linked state) (keeps_linked after)) rfl known

theorem answers {referral : Referral} (member : referral ∈ referrals notes)
    (declared : naming ∈ namings notes) (strict : loose → naming.home ≠ root) :
    answer after.linked.graph (referral.reference numbering) =
        some (numbering.declarations naming.id) ↔
      answer state.linked.graph (referral.reference .same) = some naming.id := by
  obtain ⟨-, mirrors, -⟩ := walks.linked
  have answers := mirrors.answer walks.first.linked.2.1.settling walks.second.linked.2.1.settling
    ((walks.refers member).keep (keeps_linked state) (keeps_linked after))
  have inRange {number : DeclarationId}
      (answered : answer state.linked.graph (referral.reference .same) = some number) :
      ∃ own ∈ namings notes, own.id = number := by
    have inside := supplied_lt answered
    rw [(keeps_linked state).declarations] at inside
    obtain ⟨own, member, same, -⟩ :=
      walks.first.outcome.naming walks.first.numbers (List.getElem?_eq_getElem inside)
    exact ⟨own, member, same⟩
  have again := walks.rearranged.namings.subset declared
  generalize answer state.linked.graph (referral.reference .same) = early at answers inRange ⊢
  generalize answer after.linked.graph (referral.reference numbering) = late at answers ⊢
  cases answers with
  | missing => exact iff_of_false nofun nofun
  | same number =>
    obtain ⟨own, isOwn, rfl⟩ := inRange rfl
    rw [Option.some.injEq, Option.some.injEq]
    refine ⟨fun same => ?_, fun same => congrArg _ same⟩
    have found := walks.second.numbers.declarations.getElem (walks.rearranged.namings.subset isOwn)
    rw [same, walks.second.numbers.declarations.getElem again] at found
    rw [Option.some.inj found]
  | rooted isLoose early late =>
    have inner := strict isLoose
    refine iff_of_false (fun same => ?_) fun same => ?_
    · cases same
      exact inner (walks.second.home again late)
    · cases same
      exact inner (walks.first.home declared early)

theorem uses (declared : naming ∈ namings notes)
    (strict : loose → naming.home ≠ root) (isUse : Reference → Bool)
    (blind : ∀ referral : Referral,
      isUse (referral.reference numbering) = isUse (referral.reference .same)) :
    Analysis.uses after.linked.graph after.references isUse (numbering.declarations naming.id) =
      Analysis.uses state.linked.graph state.references isUse naming.id := by
  unfold Analysis.uses
  rw [walks.first.outcome.references, walks.second.outcome.references, List.countP_map,
    List.countP_map, ← walks.rearranged.referrals.countP_eq]
  refine List.countP_congr fun referral member => ?_
  have same := walks.answers member declared strict
  simp only [Function.comp, Bool.and_eq_true, decide_eq_true_eq, blind, same]

theorem unused :
    (((counting state.linked.graph state.references).declarations.filter isUnused).map
        unusedAt).Perm
      (((counting after.linked.graph after.references).declarations.filter isUnused).map
        unusedAt) := by
  rw [walks.first.tallied, walks.second.tallied]
  refine perm_reports walks.rearranged.namings (fun naming declared => ?_) fun _ _ => rfl
  have quiet : isSuperseded (namings others) naming = isSuperseded (namings notes) naming := by
    unfold isSuperseded
    by_cases isRoot : naming.home = root
    · simp [isRoot]
    · rw [walks.rearranged.meets isRoot]
  by_cases strict : loose → naming.home ≠ root
  · have reads := walks.uses declared strict (·.isRead) fun _ => rfl
    simp only [isUnused, Naming.tallied, settled, quiet, reads]
    rfl
  · obtain ⟨isLoose, isRoot⟩ := Classical.not_imp.mp strict
    have kinds := walks.counted isLoose naming declared (Decidable.not_not.mp isRoot)
    simp [isUnused, Naming.tallied, settled, kinds]


end TwoWalks

theorem Walked.resolve (walked : Walked numbering notes state) (known : List String) :
    resolve? known state = .ok ⟨counting state.linked.graph state.references,
      state.linked.diagnostics ++ (state.references.filter fun reference =>
        isUndeclared known state.linked.graph (state.linked.graph.visits reference.scope)
          reference).map undeclaredAt, state.linked.openBases⟩ := by
  obtain ⟨folded, isLinked, same⟩ := walked.linked
  exact resolve_linked known folded isLinked (same ▸ walked.within.references)

theorem Walked.analysis [NestingLimit] (walked : Walked numbering notes state) (known : List String)
    {tree : Tree} (walks : walkTree? tree = .ok (state, true)) :
    analyzeTree known tree = {
      graph := counting state.linked.graph state.references
      references := state.references
      inheritances := state.inheritances
      diagnostics := (state.linked.diagnostics ++ (state.references.filter fun reference =>
        isUndeclared known state.linked.graph (state.linked.graph.visits reference.scope)
          reference).map undeclaredAt) ++
        unusedDiagnostics (counting state.linked.graph state.references)
      openBases := state.linked.openBases
      complete := true } := by
  unfold analyzeTree analyzeTree?
  rw [ok_bind _ walks]
  dsimp only
  rw [walked.resolve known]
  rfl

theorem Walked.diagnostics [NestingLimit] (walked : Walked numbering notes state)
    (known : List String)
    {tree : Tree} (walks : walkTree? tree = .ok (state, true)) :
    (analyzeTree known tree).complete ∧ (analyzeTree known tree).diagnostics =
      state.linked.diagnostics ++ ((state.references.filter fun reference =>
        isUndeclared known state.linked.graph (state.linked.graph.visits reference.scope)
          reference).map undeclaredAt ++
        ((counting state.linked.graph state.references).declarations.filter isUnused).map
          unusedAt) := by
  rw [walked.analysis known walks]
  refine ⟨rfl, ?_⟩
  rw [← List.append_assoc, ← unusedDiagnostics_eq]

theorem TwoWalks.diagnostics [NestingLimit]
    (walks : TwoWalks loose numbering notes others state after)
    (known : List String) {tree other : Tree} (walked : walkTree? tree = .ok (state, true))
    (rewalked : walkTree? other = .ok (after, true)) :
    (analyzeTree known tree).diagnostics.Perm (analyzeTree known other).diagnostics := by
  obtain ⟨added, -, early, late⟩ := walks.linked
  rw [(walks.first.diagnostics known walked).2, (walks.second.diagnostics known rewalked).2, early,
    late]
  exact (walks.duplicates.append (.refl added)).append
    ((walks.undeclared known).append walks.unused)

end Diagnostics

section Leaving

theorem Walked.of_replay [NestingLimit] {table : Option ScopeId} {tree : Tree}
    (left : Leaves nestingLimit tree .start notes table)
    (numbers : Numbers numbering .initial notes) :
    walkTree? tree = .ok (replay numbering notes .initial, true) ∧
      Walked numbering notes (replay numbering notes .initial) := by
  have ran := (follows_walk numbering nestingLimit tree .start notes table left .initial
    (ready_initial numbering) numbers).1
  have walks : walkTree? tree = .ok (replay numbering notes .initial, true) := by
    rw [walkTree?, ran]
  have proper := (tidy_walk nestingLimit tree .start notes table [] [] rfl left).1
  have run := walkTree_run walks
  exact ⟨walks, numbers, proper, outcome_replay numbers proper, Run.collected run collected_initial,
    Run.inRange run inRange_initial⟩

theorem diagnostics_perm [NestingLimit] {tree other : Tree} {table table' : Option ScopeId}
    (left : Leaves nestingLimit tree .start notes table)
    (numbers : Numbers .same .initial notes)
    (relaid : Leaves nestingLimit other .start others table')
    (rearranged : Rearranged loose notes others)
    (late : loose → ∀ note ∈ notes, ∀ use ∈ note.use?, use.place.deferred)
    (counted : loose → ∀ naming ∈ namings notes, naming.home = root →
      naming.kind ≠ .localVariable ∧ naming.kind ≠ .parameter)
    (unlinked : loose → heirs notes = []) (known : List String) :
    (analyzeTree known other).complete ∧
      (analyzeTree known tree).diagnostics.Perm (analyzeTree known other).diagnostics := by
  obtain ⟨walked, first⟩ := Walked.of_replay left numbers
  have renumbers := (rearranged.distinct numbers.distinct).numbers
  obtain ⟨rewalked, second⟩ := Walked.of_replay relaid renumbers
  have walks : TwoWalks loose (.along others) notes others _ _ :=
    ⟨rearranged, first, second, late, counted, unlinked⟩
  exact ⟨(second.diagnostics known rewalked).1, walks.diagnostics known walked rewalked⟩

end Leaving

end Squirrel.Analysis
