import Squirrel.Proofs.Analysis.Gathering
import Squirrel.Proofs.Analysis.Safe

/-! A walk that is not cut records every call that makes a table inherit. -/

namespace Squirrel

namespace Tree

mutual

/-- The calls that make a table inherit, each with what it inherits from and its own table. The
parameters of hooks are left out, since no walk comes to them. -/
def inheritCalls : Tree → List (Tree × Tree)
  | .leaf _ => []
  | .node .inheritCall [called, list] =>
    called.inheritCalls ++ list.inheritCalls ++ match list.subtrees with
      | [base, body] => [(base, body)]
      | _ => []
  | .node .hookWrapper [_, _, function] => function.inheritCalls
  | .node _ children => inheritCallsOf children

def inheritCallsOf : List Tree → List (Tree × Tree)
  | [] => []
  | tree :: trees => tree.inheritCalls ++ inheritCallsOf trees

end

theorem inheritCallsOf_eq (trees : List Tree) :
    inheritCallsOf trees = trees.flatMap inheritCalls := by
  induction trees with
  | nil => rfl
  | cons tree trees ih => rw [inheritCallsOf, ih, List.flatMap_cons]

theorem inheritCalls_node {label : Label} (noCall : label ≠ .inheritCall)
    (noHook : label ≠ .hookWrapper) (children : List Tree) :
    (node label children).inheritCalls = children.flatMap inheritCalls := by
  rw [inheritCalls, inheritCallsOf_eq]
  · intros
    exact absurd ‹_› noCall
  · intros
    exact absurd ‹_› noHook

theorem inheritCalls_reference {tree : Tree} (made : tree.isMade)
    (isName : tree.hasLabel .reference) : tree.inheritCalls = [] := by
  have labelled : tree.label? = some .reference := of_decide_eq_true isName
  obtain ⟨children, rfl⟩ := node_of_label labelled
  cases Analysis.special_made made rfl with
  | reference name => rfl

end Tree

namespace Analysis

open Squirrel.Tree (inheritCalls inheritCalls_node)

def heritage : Gathering (Tree × Tree) where
  named _ := []
  inherited base body := [(base, body)]
  of := inheritCalls
  leaf _ := rfl
  plain {label children} plain := inheritCalls_node (by rintro rfl; cases plain)
    (by rintro rfl; cases plain) children
  reference _ := rfl
  newSlot made := by
    rw [inheritCalls_node (by decide) (by decide)]
    split
    · next isName => simp [Tree.inheritCalls_reference made isName, inheritCalls]
    · simp [inheritCalls]
  member made := by
    rw [inheritCalls_node (by decide) (by decide)]
    split
    · next isName => simp [Tree.inheritCalls_reference made isName.1, inheritCalls]
    · simp [inheritCalls]
  functionDeclaration children := by
    rw [inheritCalls_node (by decide) (by decide)]
    simp
  hookWrapper := rfl
  inheritCall parts := by simp [inheritCalls, parts]

/-- What is recorded of a call: what its table inherits from, and the scope of its table, which holds
the slots. -/
structure IsHeir (graph : ScopeGraph) (inheritance : Inheritance) (call : Tree × Tree) : Prop where
  base : inheritance.base = call.1
  table : graph.IsTable inheritance.tableScope
  slots : HoldsSlots graph inheritance.tableScope call.2.subtrees

/-- The tables that inherit more than before are those of the calls, in some order. -/
def Adds (calls : List (Tree × Tree)) (before after : State) : Prop :=
  ∃ added own, after.inheritances = before.inheritances ++ added ∧
    List.Forall₂ (IsHeir after.graph) added own ∧ own.Perm calls

variable {α β : Type} {state before after : State} {calls others : List (Tree × Tree)}

section Adding

theorem IsHeir.mono {inheritance : Inheritance} {call : Tree × Tree}
    (records : IsHeir before.graph inheritance call) (run : Run before after) :
    IsHeir after.graph inheritance call :=
  ⟨records.base, run.isTable records.table, records.slots.mono run⟩

theorem adds_nothing (same : after.inheritances = before.inheritances) : Adds [] before after :=
  ⟨[], [], by rw [same, List.append_nil], .nil, .nil⟩

theorem Adds.trans {middle : State} (first : Adds calls before middle)
    (second : Adds others middle after) (run : Run middle after) :
    Adds (calls ++ others) before after := by
  obtain ⟨added, own, recorded, records, perm⟩ := first
  obtain ⟨more, further, recordedMore, recordsMore, permMore⟩ := second
  refine ⟨added ++ more, own ++ further, ?_, ?_, perm.append permMore⟩
  · rw [recordedMore, recorded, List.append_assoc]
  · exact List.rel_append (records.imp fun _ _ records => records.mono run) recordsMore

theorem Adds.perm (adds : Adds calls before after) (perm : calls.Perm others) :
    Adds others before after := by
  obtain ⟨added, own, recorded, records, same⟩ := adds
  exact ⟨added, own, recorded, records, same.trans perm⟩

end Adding

section Keeping

/-- A walk that makes no table inherit. -/
def Heirless (walk : Walk α) : Prop :=
  ∀ state value after, walk state = .ok value after → after.inheritances = state.inheritances

variable {walk : Walk α} {next : α → Walk β}

theorem Heirless.bind (first : Heirless walk) (second : ∀ value, Heirless (next value)) :
    Heirless (walk >>= next) := by
  intro state value after ran
  cases given : walk state with
  | ok own middle =>
    rw [bind_run given] at ran
    exact (second own _ _ _ ran).trans (first _ _ _ given)
  | error cut middle =>
    rw [bind_error given] at ran
    cases ran

theorem heirless_pure (value : α) : Heirless (pure value) := by
  intro state own after ran
  cases ran
  rfl

theorem heirless_get : Heirless get := by
  intro state own after ran
  cases ran
  rfl

theorem heirless_modify {update : State → State}
    (same : ∀ state, (update state).inheritances = state.inheritances) : Heirless (modify update) := by
  intro state own after ran
  cases ran
  exact same state

theorem heirless_demand (answer : Except GraphError α) : Heirless (demand answer) := by
  cases answer with
  | ok value => exact heirless_pure value
  | error error =>
    intro state own after ran
    cases ran

theorem heirless_updateDeclaration (id : DeclarationId) (update : Declaration → Declaration) :
    Heirless (updateDeclaration id update) :=
  heirless_get.bind fun _ => (heirless_demand _).bind fun _ => heirless_modify fun _ => rfl

theorem heirless_nextSeq : Heirless nextSeq := by
  intro state value after ran
  cases ran
  rfl

theorem heirless_bind (scope : ScopeId) (name : String) (kind : DeclarationKind) (span : Span) :
    Heirless (Analysis.bind scope name kind span) := by
  refine heirless_nextSeq.bind fun seq => heirless_get.bind fun state => ?_
  generalize state.graph.tryDeclare scope name kind span seq = declared
  exact Heirless.bind (heirless_modify fun _ => rfl) fun _ => heirless_demand _

theorem heirless_declareIn (scope : ScopeId) (name : String) (kind : DeclarationKind) (span : Span) :
    Heirless (declareIn scope name kind span) := by
  refine (heirless_bind scope name kind span).bind fun ids => ?_
  obtain ⟨id, previous?⟩ := ids
  cases previous? with
  | none => exact heirless_pure id
  | some previous =>
    refine heirless_get.bind fun _ => (heirless_demand _).bind fun found => ?_
    dsimp only
    split
    · exact (heirless_updateDeclaration _ _).bind fun _ =>
        Heirless.bind (heirless_modify fun _ => rfl) fun _ => heirless_pure id
    · exact heirless_pure id

theorem heirless_recover (scope : ScopeId) (token : Token) (kind : DeclarationKind) :
    Heirless (recover scope token kind) :=
  (heirless_bind _ _ _ _).bind fun _ => heirless_updateDeclaration _ _

theorem heirless_refer (token : Token) (isCall isRead isWrite : Bool) :
    Heirless (refer token isCall isRead isWrite) :=
  heirless_nextSeq.bind fun _ => heirless_modify fun _ => rfl

theorem heirless_functionScope (isLocal : Bool) : Heirless (functionScope isLocal) :=
  heirless_get.bind fun _ => heirless_get.bind fun _ =>
    (heirless_demand _).bind fun _ => heirless_pure _

theorem heirless_find (home : Home) : Heirless home.find := by
  cases home with
  | here => exact heirless_get.bind fun _ => heirless_pure _
  | root => exact heirless_pure _
  | function isLocal => exact heirless_functionScope isLocal

theorem heirless_recoverNames (earlier before : Option Token) (tokens : List Token) :
    Heirless (recoverNames earlier before tokens) := by
  induction tokens generalizing earlier before with
  | nil => exact heirless_pure ()
  | cons token rest ih =>
    have onward := ih before (some token)
    unfold recoverNames
    dsimp only
    split
    · split
      · exact heirless_get.bind fun _ => (heirless_recover _ _ _).bind fun _ => onward
      · split
        · exact (heirless_functionScope _).bind fun _ => (heirless_recover _ _ _).bind fun _ => onward
        · split
          · exact (heirless_recover _ _ _).bind fun _ => onward
          · exact onward
    · exact onward

end Keeping

section Gathering

/-- A walk from `state` records the calls. -/
def Gathers (calls : List (Tree × Tree)) (state : State) (walk : Walk α)
    (post : α → State → Prop) : Prop :=
  Safely none state walk fun value after => Adds calls state after ∧ post value after

variable {walk : Walk α} {post middle : α → State → Prop} {last : β → State → Prop}

theorem Safely.leading {marks : Option (List (Token × Bool))} (safe : Safely marks state walk post) :
    Safely marks state walk fun value after => Leads marks state after ∧ post value after := by
  intro within
  have walked := safe within
  split at walked
  · exact ⟨walked.1, walked⟩
  · exact walked
  · exact walked

theorem Safely.quietly (safe : Safely none state walk post) (keeps : Heirless walk) :
    Gathers [] state walk post := by
  intro within
  have walked := safe within
  split at walked
  · next value after ran => exact ⟨walked.1, adds_nothing (keeps _ _ _ ran), walked.2⟩
  · exact walked
  · exact walked

theorem Gathers.bind {next : α → Walk β} (first : Gathers calls state walk middle)
    (second : ∀ value after, Leads none state after → middle value after →
      Gathers others after (next value) last) :
    Gathers (calls ++ others) state (walk >>= next) last :=
  Safely.bind first fun value after leads given =>
    (second value after leads given.2).leading.mono fun _ _ ended =>
      ⟨given.1.trans ended.2.1 ended.1.run, ended.2.2⟩

theorem Gathers.perm (gathers : Gathers calls state walk post) (perm : calls.Perm others) :
    Gathers others state walk post :=
  Safely.mono gathers fun _ _ given => ⟨given.1.perm perm, given.2⟩

theorem Gathers.quietly {next : α → Walk β} (first : Gathers calls state walk middle)
    (second : ∀ value after, Leads none state after → middle value after →
      Safely none after (next value) last) (keeps : ∀ value, Heirless (next value)) :
    Gathers calls state (walk >>= next) last := by
  have both := first.bind fun value after leads given =>
    (second value after leads given).quietly (keeps value)
  rwa [List.append_nil] at both

theorem Gathers.giving (gathers : Gathers calls state walk Whatever)
    (safe : Safely none state walk post) : Gathers calls state walk post := by
  intro within
  have recorded := gathers within
  have walked := safe within
  split at walked
  · next ran =>
    rw [ran] at recorded
    exact ⟨walked.1, recorded.2.1, walked.2⟩
  · exact walked
  · exact walked

theorem gathers_pure {value : α} (holds : post value state) : Gathers [] state (pure value) post :=
  (safely_pure holds).quietly (heirless_pure value)

end Gathering

section Playing

/-- A visitor that records the calls of every tree that is well made. -/
def Recorder (walk : Visitor) : Prop :=
  ∀ {tree state}, Made tree tree → Gathers tree.inheritCalls state (walk tree) Whatever

variable {walk : Visitor}

theorem Recorder.giving (recorder : Recorder walk) (safe : SafeVisitor none walk) {tree : Tree}
    (made : Made tree tree) : Gathers tree.inheritCalls state (walk tree) (GivesTable tree state) :=
  (recorder made).giving (safe nofun rfl)

mutual

theorem gathers_play (safe : SafeVisitor none walk) (recorder : Recorder walk) :
    (act : Act) → ActLike Made act act → ∀ {state},
      Gathers (act.gathered heritage) state (act.play walk) Whatever
  | .walk tree, .walk made, _ =>
    (recorder made).quietly (fun _ _ _ _ => safely_done) fun _ => heirless_pure ()
  | .refer name isCall isRead isWrite, _, _ =>
    (safely_play safe (.refer name isCall isRead isWrite) nofun rfl).quietly (heirless_refer _ _ _ _)
  | .declare home name kind, like, _ =>
    (safely_play safe (.declare home name kind) nofun rfl).quietly
      ((heirless_find home).bind fun _ => (heirless_declareIn _ _ _ _).bind fun _ => heirless_pure ())
  | .excuse name, like, _ =>
    (safely_play safe (.excuse name) nofun rfl).quietly
      ((heirless_get.bind fun _ => heirless_declareIn _ _ _ _).bind fun _ =>
        heirless_updateDeclaration _ _)
  | .bind home name kind value?, .bind _ _ _ made, state => by
    have keeps (table : Option ScopeId) : Heirless (do
        let id ← declareIn (← home.find) name.text kind name.span
        updateDeclaration id ({ · with tableScope := table })) :=
      (heirless_find home).bind fun _ => (heirless_declareIn _ _ _ _).bind fun _ =>
        heirless_updateDeclaration _ _
    have valued : Gathers (heritage.all value?.toList) state (tableOf walk value?) GivesScope := by
      cases made with
      | none => exact gathers_pure (by simp [GivesScope])
      | some made =>
        rw [Option.toList_some, heritage.all_cons, heritage.all_nil, List.append_nil]
        exact Safely.mono (recorder.giving safe made) fun _ _ given => ⟨given.1, given.2.1⟩
    exact valued.quietly (fun _ _ _ tabled => safely_bound tabled home name kind) keeps
  | .recover tokens, _, _ =>
    (safely_recoverNames none none tokens).quietly (heirless_recoverNames none none tokens)
  | .within enclosure later acts, .within _ _ like, state => by
    have inside (state : State) : Gathers (gatheredOf heritage acts) state (playAll walk acts)
        Whatever := gathers_playAll safe recorder acts like
    rw [Act.play]
    refine safely_inScope enclosure.kind_ne_root fun _ => ?_
    cases later with
    | true => exact safely_deferring (inside _)
    | false => exact inside _

theorem gathers_playAll (safe : SafeVisitor none walk) (recorder : Recorder walk) :
    (acts : List Act) → ActsLike Made acts acts → ∀ {state},
      Gathers (gatheredOf heritage acts) state (playAll walk acts) Whatever
  | [], _, _ => gathers_pure trivial
  | act :: acts, like, _ => by
    obtain ⟨first, rest⟩ := List.forall₂_cons.mp like
    exact (gathers_play safe recorder act first).bind fun _ _ _ _ =>
      gathers_playAll safe recorder acts rest

end

variable (safe : SafeVisitor none walk) (recorder : Recorder walk)

include safe recorder

end Playing

end Analysis

end Squirrel
