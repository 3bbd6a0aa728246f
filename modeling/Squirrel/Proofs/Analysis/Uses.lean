import Squirrel.Proofs.Analysis.Gathering
import Squirrel.Proofs.Analysis.Recording
import Squirrel.Proofs.Grammar.Extraction

/-! The references that a walk collects are the identifiers that a program uses. -/

namespace Squirrel

variable {trees : List Tree}

namespace Tree

mutual

/-- The identifiers that are used in a tree: all names but those that a slot is made for and the
table that holds the state of an object, and the first parts of longer names of functions. The
parameters of hooks count if `hooks` is set. -/
def uses (hooks : Bool) : Tree → List Token
  | .leaf _ => []
  | .node .reference (.leaf name :: _) => [name]
  | .node .newSlot (target :: rest) =>
    (if target.hasLabel .reference then [] else target.uses hooks) ++ usesOf hooks rest
  | .node .member (object :: rest) =>
    (if object.hasLabel .reference ∧ object.identifier? = some Analysis.stateTable then []
      else object.uses hooks) ++ usesOf hooks rest
  | .node .functionDeclaration children => children.flatMap pathStart ++ usesOf hooks children
  | .node .hookWrapper [_, list, function] =>
    (if hooks then list.uses hooks else []) ++ function.uses hooks
  | .node _ children => usesOf hooks children

def usesOf (hooks : Bool) : List Tree → List Token
  | [] => []
  | tree :: trees => tree.uses hooks ++ usesOf hooks trees

end

mutual

def hookDefaults : Tree → List Token
  | .leaf _ => []
  | .node .hookWrapper [_, list, function] => list.uses true ++ function.hookDefaults
  | .node _ children => hookDefaultsOf children

def hookDefaultsOf : List Tree → List Token
  | [] => []
  | tree :: trees => tree.hookDefaults ++ hookDefaultsOf trees

end

section Uses

variable {hooks : Bool} {label : Label} {tree : Tree}

@[simp] theorem uses_leaf (token : Token) : (leaf token).uses hooks = [] := rfl

@[simp] theorem usesOf_nil : usesOf hooks [] = [] := rfl

@[simp] theorem usesOf_cons (tree : Tree) (trees : List Tree) :
    usesOf hooks (tree :: trees) = tree.uses hooks ++ usesOf hooks trees := rfl

theorem usesOf_eq (trees : List Tree) : usesOf hooks trees = trees.flatMap (uses hooks) := by
  induction trees with
  | nil => rw [usesOf_nil, List.flatMap_nil]
  | cons tree trees ih => rw [usesOf_cons, ih, List.flatMap_cons]

@[simp] theorem uses_reference (name : Token) (rest : List Tree) :
    (node .reference (.leaf name :: rest)).uses hooks = [name] := rfl

@[simp] theorem uses_of_token (isToken : tree.isNode = false) : tree.uses hooks = [] := by
  cases tree with
  | leaf token => exact uses_leaf token
  | node label children => cases isToken

theorem uses_plain (plain : holdsPlainly label) (children : List Tree) :
    (node label children).uses hooks = usesOf hooks children := by
  rw [uses]
  all_goals
    intros
    subst label
    cases plain

theorem uses_inheritCall (children : List Tree) :
    (node .inheritCall children).uses hooks = usesOf hooks children := by
  simp [uses]

end Uses

end Tree

namespace Analysis

open Squirrel.Tree (usesOf uses_plain pathStart holdsPlainly)

theorem Sound.made {tree : Tree} (sound : Sound tree) : tree.isMade :=
  Bool.and_eq_true_iff.mpr ⟨sound.shaped, sound.composed⟩

/-- The names that a walk refers to. -/
def usedNames : Gathering Token where
  named name := [name]
  inherited _ _ := []
  of := Tree.uses false
  leaf _ := rfl
  plain plain := (uses_plain plain _).trans (Tree.usesOf_eq _)
  reference _ := rfl
  newSlot _ := by simp [Tree.uses]
  member _ := by simp [Tree.uses]
  functionDeclaration children := by
    rw [Tree.uses, Tree.usesOf_eq, List.flatMap_singleton' (children.flatMap pathStart)]
  hookWrapper := by simp [Tree.uses]
  inheritCall _ := by simp [Tree.uses_inheritCall]

@[simp] theorem usedNames_named (name : Token) : usedNames.named name = [name] := rfl

@[simp] theorem usedNames_inherited (base body : Tree) : usedNames.inherited base body = [] := rfl

@[simp] theorem usedNames_of (tree : Tree) : usedNames.of tree = tree.uses false := rfl

@[simp] theorem all_usedNames (trees : List Tree) : usedNames.all trees = usesOf false trees :=
  (Tree.usesOf_eq trees).symm

section Referring

@[simp] def Note.referred? : Note → Option Token
  | .refer _ name _ _ _ => some name
  | _ => none

def referred (notes : List Note) : List Token := notes.filterMap Note.referred?

@[simp] theorem referred_nil : referred [] = [] := rfl

@[simp] theorem referred_cons (note : Note) (notes : List Note) :
    referred (note :: notes) = note.referred?.toList ++ referred notes := by
  cases note <;> rfl

@[simp] theorem referred_append (notes others : List Note) :
    referred (notes ++ others) = referred notes ++ referred others := List.filterMap_append

theorem references_replay (numbering : Numbering) (notes : List Note) (state : State) :
    (replay numbering notes state).references.map (fun reference => (reference.name, reference.span)) =
      state.references.map (fun reference => (reference.name, reference.span)) ++
        (referred notes).map fun name => (name.text, name.span) := by
  induction notes generalizing state with
  | nil => simp
  | cons note notes ih =>
    rw [replay_cons, ih, referred_cons, List.map_append, ← List.append_assoc]
    congr 1
    cases note with
    | declare naming =>
      have kept : (declared state (numbering.scopes naming.home) naming.name naming.kind
          naming.span).references = state.references := by
        unfold declared
        split
        · split <;> rfl
        · rfl
      unfold Note.replay
      dsimp only
      split <;> simp [kept]
    | _ => simp [Note.replay]

variable {trail : Trail} {place : Place}

def Tells (trail : Trail) : Prop :=
  ∀ tree place notes table, Sound tree → trail tree place notes table →
    (referred notes).Perm (tree.uses false)

mutual

theorem referred_act (tells : Tells trail) : (act : Act) → ∀ {place notes},
    ActLike Itself act act → act.Leaves trail place notes → (referred notes).Perm (act.gathered usedNames)
  | .walk tree, _, _, like, leaves => by
    cases like with
    | walk like =>
      cases leaves with
      | walk walked =>
        rw [Act.gathered]
        exact tells _ _ _ _ like.2 walked
  | .bind home name kind value?, _, _, like, leaves => by
    cases like with
    | bind _ _ _ like =>
      cases leaves with
      | bind _ _ _ id stamp valued =>
        rw [Act.gathered]
        cases valued with
        | none => simp
        | some walked =>
          cases like with
          | some like => simpa using tells _ _ _ _ like.2 walked
  | .within _ _ acts, _, _, like, leaves => by
    cases like with
    | within _ _ like =>
      cases leaves with
      | within _ _ id inside =>
        rw [Act.gathered]
        simpa using referred_acts tells acts like inside
  | .refer name isCall isRead isWrite, _, _, _, leaves => by
    cases leaves
    simp
  | .declare home name kind, _, _, _, leaves => by
    cases leaves
    simp
  | .excuse name, _, _, _, leaves => by
    cases leaves
    simp
  | .recover tokens, _, _, like, _ => nomatch like
  | .fail label, _, _, _, leaves => nomatch leaves

theorem referred_acts (tells : Tells trail) : (acts : List Act) → ∀ {place notes},
    ActsLike Itself acts acts → LeaveAll trail acts place notes →
      (referred notes).Perm (gatheredOf usedNames acts)
  | [], _, _, _, leaves => by
    cases leaves
    simp
  | act :: acts, _, _, like, leaves => by
    obtain ⟨first, rest⟩ := List.forall₂_cons.mp like
    cases leaves with
    | cons one others =>
      rw [referred_append, gatheredOf_cons]
      exact (referred_act tells act first one).append (referred_acts tells acts rest others)

end

variable {notes : List Note}

theorem referred_filling (tells : Tells trail) {filling : Filling} {slot : Option DeclarationId}
    (like : FillingLike Itself filling filling) (leaves : filling.Leaves trail place slot notes) :
    (referred notes).Perm (filling.gathered usedNames) := by
  cases leaves with
  | acts slot played =>
    cases like with
    | acts like => exact referred_acts tells _ like played
    | fails => cases played with | cons failed => cases failed
  | value id walked =>
    cases like with
    | value like => simpa [Filling.gathered] using tells _ _ _ _ like.2 walked

theorem referred_slot {entry : Tree} (leaves : SlotLeaves place entry notes) :
    referred notes = [] := by
  cases leaves <;> rfl

theorem referred_table (tells : Tells trail) {entries : List Tree}
    {blocks : List (List Note × List Note)}
    (sound : ∀ entry ∈ entries, Sound entry ∧ ∃ label ∈ Tree.entryLabels, entry.label? = some label)
    (leaves : List.Forall₂ (EntryLeaves trail place) entries blocks) :
    referred (blocks.flatMap (·.1)) = [] ∧
      (referred (blocks.flatMap (·.2))).Perm (usesOf false entries) := by
  induction leaves with
  | nil => simp
  | @cons entry block entries blocks first _ ih =>
    obtain ⟨⟨isSound, isEntry⟩, others⟩ := List.forall_mem_cons.mp sound
    obtain ⟨none, all⟩ := ih others
    have own := referred_filling tells
      (filling_like tracks_itself ⟨rfl, isSound⟩) first.filled
    rw [gathered_filling usedNames isSound.made isEntry] at own
    simp only [List.flatMap_cons, referred_append, referred_slot first.slot, none, Tree.usesOf_cons]
    exact ⟨rfl, own.append all⟩

theorem referred_ending (tells : Tells trail) {ending : Ending} {table : Option ScopeId}
    (like : EndingLike Itself ending ending) (leaves : ending.Leaves trail place notes table) :
    (referred notes).Perm (ending.gathered usedNames) := by
  cases like with
  | nothing =>
    cases leaves
    simp [Ending.gathered]
  | value like =>
    cases leaves with
    | value walked => simpa [Ending.gathered] using tells _ _ _ _ like.2 walked
  | inherit based like =>
    cases leaves with
    | inherit stamp walked => simpa [Ending.gathered] using tells _ _ _ _ like.2 walked

theorem referred_script (tells : Tells trail) {label : Label} {children : List Tree}
    {table : Option ScopeId} (sound : Sound (.node label children))
    (leaves : (script label children).Leaves trail place notes table) :
    (referred notes).Perm ((Tree.node label children).uses false) := by
  refine .trans ?_ (gathered_script usedNames sound.made)
  cases leaves with
  | mk played ended =>
    rw [referred_append, Script.gathered]
    by_cases isTable : label = .table
    · subst isTable
      simp only [script] at played ended ⊢
      cases played
      cases ended with
      | table id filled =>
        have entries : ∀ entry ∈ children.filter (·.isNode), Sound entry ∧
            ∃ label ∈ Tree.entryLabels, entry.label? = some label := by
          intro entry member
          obtain ⟨inside, isNode⟩ := List.mem_filter.mp member
          exact ⟨sound.child entry inside, sound.part rfl inside isNode⟩
        obtain ⟨none, all⟩ := referred_table tells entries filled
        simpa [none, Ending.gathered] using all
    · have like := script_like tracks_itself ⟨rfl, sound⟩ isTable sound.label_ne
      exact (referred_acts tells _ like.acts played).append (referred_ending tells like.ending ended)

theorem tells_walk (levels : Nat) : Tells (Leaves levels) := by
  induction levels with
  | zero =>
    intro tree place notes table sound leaves
    cases tree with
    | leaf token =>
      obtain ⟨rfl, rfl⟩ := leaves
      simp
    | node label children => exact leaves.elim
  | succ levels ih =>
    intro tree place notes table sound leaves
    cases tree with
    | leaf token =>
      obtain ⟨rfl, rfl⟩ := leaves
      simp
    | node label children => exact referred_script ih sound leaves.2

end Referring

section Tokens

variable {hooks : Bool} {label : Label} {children : List Tree} {tree : Tree}

theorem perm_exchange {α : Type} (first second third fourth : List α) :
    (first ++ second ++ (third ++ fourth)).Perm (first ++ third ++ (second ++ fourth)) := by
  simp only [List.append_assoc]
  exact List.Perm.append_left _ (List.perm_append_comm_assoc _ _ _)

theorem subperm_usesOf (each : ∀ tree ∈ trees, (tree.uses hooks).Subperm tree.tokens) :
    (usesOf hooks trees).Subperm (Tree.tokensOf trees) := by
  induction trees with
  | nil => simp
  | cons tree trees ih =>
    obtain ⟨first, others⟩ := List.forall_mem_cons.mp each
    rw [Tree.usesOf_cons, Tree.tokensOf_cons]
    exact first.append (ih others)

theorem subperm_pathStart (tree : Tree) : (pathStart tree).Subperm tree.tokens := by
  unfold pathStart
  split
  · rw [Tree.tokens_node, Tree.tokensOf_cons, Tree.tokens_leaf]
    split <;> simp
  · exact List.nil_subperm

theorem uses_functionName (sound : Sound tree) (isName : tree.hasLabel .functionName) :
    tree.uses hooks = [] := by
  have labelled : tree.label? = some .functionName := of_decide_eq_true isName
  obtain ⟨inner, rfl⟩ := Tree.node_of_label labelled
  rw [uses_plain rfl, Tree.usesOf_eq, List.flatMap_eq_nil_iff]
  intro child member
  cases child with
  | leaf token => rfl
  | node own below =>
    obtain ⟨part, listed, -⟩ := sound.part rfl member rfl
    cases listed

theorem subperm_declared (sound : ∀ tree ∈ trees, Sound tree)
    (each : ∀ tree ∈ trees, (tree.uses hooks).Subperm tree.tokens) :
    (trees.flatMap pathStart ++ usesOf hooks trees).Subperm (Tree.tokensOf trees) := by
  induction trees with
  | nil => simp
  | cons tree trees ih =>
    obtain ⟨first, others⟩ := List.forall_mem_cons.mp each
    obtain ⟨isSound, rest⟩ := List.forall_mem_cons.mp sound
    have own : (pathStart tree ++ tree.uses hooks).Subperm tree.tokens := by
      by_cases isName : tree.hasLabel .functionName
      · rw [uses_functionName isSound isName, List.append_nil]
        exact subperm_pathStart tree
      · have unnamed : pathStart tree = [] := by
          unfold pathStart
          split
          · exact absurd rfl isName
          · rfl
        rwa [unnamed, List.nil_append]
    rw [List.flatMap_cons, Tree.usesOf_cons, Tree.tokensOf_cons]
    exact (perm_exchange _ _ _ _).subperm.trans (own.append (ih rest others))

theorem subperm_uses (sound : Sound tree) : (tree.uses hooks).Subperm tree.tokens := by
  induction tree using Tree.byChildren with
  | leaf token => simp
  | node label children ih =>
    replace ih := fun child member => ih child member (sound.child child member)
    rw [Tree.tokens_node]
    cases plain : holdsPlainly label with
    | true =>
      rw [uses_plain plain]
      exact subperm_usesOf ih
    | false =>
      -- Wherever a node leaves out what a child uses, the tokens of the child are left over.
      have leftOut {omits : Prop} [Decidable omits] {child : Tree} (member : child ∈ children) :
          (if omits then [] else child.uses hooks).Subperm child.tokens := by
        split
        · exact List.nil_subperm
        · exact ih child member
      cases special_made sound.made plain with
      | reference name => simp
      | newSlot target sign value =>
        rw [Tree.uses, Tree.tokensOf_cons]
        exact (leftOut (by simp)).append (subperm_usesOf fun child member => ih child (by simp_all))
      | member object dot name =>
        rw [Tree.uses, Tree.tokensOf_cons]
        exact (leftOut (by simp)).append (subperm_usesOf fun child member => ih child (by simp_all))
      | functionDeclaration =>
        rw [Tree.uses]
        exact subperm_declared sound.child ih
      | hookWrapper sign list function =>
        have listed : (if hooks then list.uses hooks else []).Subperm list.tokens := by
          split
          · exact ih list (by simp)
          · exact List.nil_subperm
        have both := listed.append (ih function (by simp))
        rw [Tree.uses]
        simpa using both.trans (List.sublist_cons_self sign _).subperm
      | inheritCall called list =>
        rw [Tree.uses_inheritCall]
        exact subperm_usesOf ih

end Tokens

section Hooks

variable {label : Label} {children : List Tree} {tree : Tree}

theorem hookDefaults_node (plain : label ≠ .hookWrapper) (children : List Tree) :
    (Tree.node label children).hookDefaults = Tree.hookDefaultsOf children := by
  rw [Tree.hookDefaults]
  intros
  exact absurd ‹_› plain

@[simp] theorem hookDefaults_leaf (token : Token) : (Tree.leaf token).hookDefaults = [] := rfl

@[simp] theorem hookDefaultsOf_nil : Tree.hookDefaultsOf [] = [] := rfl

@[simp] theorem hookDefaultsOf_cons (tree : Tree) (trees : List Tree) :
    Tree.hookDefaultsOf (tree :: trees) = tree.hookDefaults ++ Tree.hookDefaultsOf trees := rfl

theorem usesOf_hooks
    (each : ∀ tree ∈ trees, (tree.uses false ++ tree.hookDefaults).Perm (tree.uses true)) :
    (usesOf false trees ++ Tree.hookDefaultsOf trees).Perm (usesOf true trees) := by
  induction trees with
  | nil => simp
  | cons tree trees ih =>
    obtain ⟨first, others⟩ := List.forall_mem_cons.mp each
    rw [Tree.usesOf_cons, hookDefaultsOf_cons, Tree.usesOf_cons]
    exact (perm_exchange _ _ _ _).trans (first.append (ih others))

theorem uses_hooks (sound : Sound tree) :
    (tree.uses false ++ tree.hookDefaults).Perm (tree.uses true) := by
  induction tree using Tree.byChildren with
  | leaf token => simp
  | node label children ih =>
    replace ih := fun child member => ih child member (sound.child child member)
    cases plain : holdsPlainly label with
    | true =>
      have noHook : label ≠ .hookWrapper := by
        rintro rfl
        cases plain
      rw [uses_plain plain, uses_plain plain, hookDefaults_node noHook]
      exact usesOf_hooks ih
    | false =>
      -- A name that is left out is no hook.
      have leftOut {omits : Prop} [Decidable omits] {child : Tree} (member : child ∈ children)
          (isName : omits → child.hasLabel .reference) :
          ((if omits then [] else child.uses false) ++ child.hookDefaults).Perm
            (if omits then [] else child.uses true) := by
        split
        · next skipped =>
          have labelled : child.label? = some .reference := of_decide_eq_true (isName skipped)
          obtain ⟨inner, rfl⟩ := Tree.node_of_label labelled
          cases special_made (sound.child _ member).made rfl with
          | reference name => simp [hookDefaults_node]
        · exact ih child member
      cases special_made sound.made plain with
      | reference name => simp [hookDefaults_node]
      | newSlot target sign value =>
        rw [Tree.uses, Tree.uses, hookDefaults_node (by decide), hookDefaultsOf_cons]
        exact (perm_exchange _ _ _ _).trans ((leftOut (by simp) id).append
          (usesOf_hooks fun child member => ih child (by simp_all)))
      | member object dot name =>
        rw [Tree.uses, Tree.uses, hookDefaults_node (by decide), hookDefaultsOf_cons]
        exact (perm_exchange _ _ _ _).trans ((leftOut (by simp) And.left).append
          (usesOf_hooks fun child member => ih child (by simp_all)))
      | functionDeclaration =>
        rw [Tree.uses, Tree.uses, hookDefaults_node (by decide), List.append_assoc]
        exact (usesOf_hooks ih).append_left _
      | hookWrapper sign list function =>
        rw [Tree.uses, Tree.uses, Tree.hookDefaults, if_neg Bool.false_ne_true, if_pos rfl,
          List.nil_append]
        exact (List.perm_append_comm_assoc _ _ _).trans ((ih function (by simp)).append_left _)
      | inheritCall called list =>
        rw [Tree.uses_inheritCall, Tree.uses_inheritCall, hookDefaults_node (by decide)]
        exact usesOf_hooks ih

end Hooks

end Analysis

open Analysis

theorem distinct_uses [NestingLimit] {source : String} (clean : (parse source).tree.errors = 0) :
    (((parse source).tree.uses true).map (·.span)).Nodup := by
  have sound := sound_parse clean
  obtain ⟨trees, last, tree, isProgram⟩ := parse_isProgram source
  have distinct : ((Tree.tokensOf trees).map (·.span)).Nodup := by
    have all := distinct_spans source
    rw [isProgram.split] at all
    exact ((List.sublist_append_left _ [last]).map _).nodup all
  rw [tree] at sound ⊢
  have listed : (Tree.node .program (trees ++ [.leaf last])).uses true = Tree.usesOf true trees := by
    rw [Tree.uses_plain rfl, Tree.usesOf_eq, List.flatMap_append, ← Tree.usesOf_eq]
    simp
  obtain ⟨tokens, same, inside⟩ : (Tree.usesOf true trees).Subperm (Tree.tokensOf trees) :=
    subperm_usesOf fun child member =>
      subperm_uses (sound.child child (List.mem_append_left _ member))
  rw [listed, ← (same.map _).nodup_iff]
  exact (inside.map _).nodup distinct

/-- In a program without faults that is not nested too deeply, the references are the identifiers
that the program uses, each of them once. Only those in the parameters of hooks are left out. -/
theorem references_exact [NestingLimit] (known : List String) (source : String)
    (clean : (parse source).tree.errors = 0)
    (complete : (analyzeTree known (parse source).tree).complete = true) :
    ((analyzeTree known (parse source).tree).references.map
        (fun reference => (reference.name, reference.span)) ++
      (parse source).tree.hookDefaults.map (fun name => (name.text, name.span))).Perm
        (((parse source).tree.uses true).map fun name => (name.text, name.span)) ∧
    (((parse source).tree.uses true).map (·.span)).Nodup := by
  have sound := sound_parse clean
  obtain ⟨state, walked, same⟩ := complete_walk complete
  obtain ⟨notes, table, leaves, -, rfl⟩ := walk_left sound walked
  have told := tells_walk nestingLimit _ _ _ _ sound leaves
  refine ⟨?_, distinct_uses clean⟩
  rw [same, references_replay, State.initial, List.map_nil, List.nil_append, ← List.map_append]
  exact ((told.append_right _).trans (uses_hooks sound)).map _

theorem references_exact_hook :
    (analyzeTree [] (parse "f <- @(__original = x) function(y) { y(z) }").tree).references.length + 1 =
      ((parse "f <- @(__original = x) function(y) { y(z) }").tree.uses true).length := by
  have exact := references_exact [] "f <- @(__original = x) function(y) { y(z) }"
    (by decide +kernel) (by decide +kernel)
  have one : (parse "f <- @(__original = x) function(y) { y(z) }").tree.hookDefaults.length = 1 := by
    decide +kernel
  have sizes := exact.1.length_eq
  simpa [one] using sizes

end Squirrel
