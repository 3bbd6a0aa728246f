import Squirrel.Proofs.Analysis.Inheriting
import Squirrel.Proofs.Analysis.Invariance
import Squirrel.Proofs.Analysis.Relaying

/-! The order of the entries of a table does not matter, nor does that of the functions of a
program, as long as the walk comes to its end. -/

namespace Squirrel.Analysis

open ScopeGraph (root)

section Programs

variable {levels : Nat} {children : List Tree} {notes inner : List Note} {table : Option ScopeId}

theorem leaves_program : Leaves (levels + 1) (.node .program children) .start notes table ↔
    Tree.admits .program children ∧ table = none ∧
      ∃ id inner, notes = .scope id .function root :: inner ∧
        LeaveAll (Leaves levels) (children.map .walk) (Place.start.enter id false) inner := by
  constructor
  · rintro ⟨admitted, left⟩
    cases left with
    | mk played ended =>
      cases (ended : Ending.nothing.Leaves (Leaves levels) .start _ _)
      cases (played : LeaveAll (Leaves levels) [.within .function false (children.map .walk)] _ _) with
      | cons first rest =>
        cases first with
        | within _ _ id inside =>
          cases rest
          refine ⟨admitted, rfl, id, _, ?_, inside⟩
          rw [List.append_nil, List.append_nil]
          rfl
  · rintro ⟨admitted, rfl, id, inner, rfl, inside⟩
    refine ⟨admitted, ?_⟩
    have played : LeaveAll (Leaves levels) [.within .function false (children.map .walk)] .start
        ((.scope id .function root :: inner) ++ []) :=
      .cons (.within .function false id inside) (.nil _)
    have left : (script .program children).Leaves (Leaves levels) .start
        (((.scope id .function root :: inner) ++ []) ++ []) none := .mk played .nothing
    simpa using left

theorem Distinct.fresh {id outer : ScopeId} {kind : ScopeKind}
    (distinct : Distinct (.scope id kind outer :: inner)) (later : Bool) :
    Fresh (Place.start.enter id later) inner := by
  have scopes : (root :: id :: scopeIds inner).Nodup := by simpa using distinct.scopes
  obtain ⟨apart, scopes⟩ := List.nodup_cons.mp scopes
  obtain ⟨own, scopes⟩ := List.nodup_cons.mp scopes
  refine ⟨fun isRoot => apart ?_, List.mem_cons_of_mem _ (List.mem_singleton.mpr rfl), ?_, scopes,
    by simpa using distinct.declarations⟩
  · rw [← isRoot]
    exact List.mem_cons_self
  · intro other member around
    rcases List.mem_cons.mp around with rfl | isRoot
    · exact own member
    · cases List.mem_singleton.mp isRoot
      exact apart (List.mem_cons_of_mem _ member)

theorem relay_program {other : Tree} (varies : Varies (.node .program children) other)
    (distinct : Distinct notes)
    (left : Leaves levels (.node .program children) .start notes table) :
    ∃ others, Leaves levels other .start others table ∧ Rearranged false notes others := by
  rcases levels with _ | levels
  · exact left.elim
  obtain ⟨others, rfl, alike⟩ := varies.node
  have like := alike.resolve_right fun shuffled => nomatch shuffled.1
  obtain ⟨admitted, rfl, id, inner, rfl, inside⟩ := leaves_program.mp left
  obtain ⟨relaid, laid, rearranged⟩ :=
    relay_acts (relays_walk levels) _ (walks_like like) (distinct.fresh false) inside
  exact ⟨_, leaves_program.mpr ⟨admits_varies varies admitted, rfl, id, relaid, rfl, laid⟩,
    .cons (.same _) rearranged⟩

end Programs

section Functions

variable {levels : Nat} {trail : Trail} {place : Place} {notes inner : List Note}
  {table : Option ScopeId}

def isFreeFunction : Tree → Bool
  | .node .functionDeclaration children =>
    !children.head?.any (·.isToken .kwLocal) &&
      (children.find? (·.isNode)).any (·.children.length = 1)
  | _ => false

theorem leaves_walks {trees : List Tree} : LeaveAll trail (trees.map .walk) place notes ↔
    ∃ blocks, List.Forall₂ (fun tree block => ∃ table, trail tree place block table) trees blocks ∧
      notes = blocks.flatten := by
  induction trees generalizing notes with
  | nil =>
    constructor
    · intro left
      cases left
      exact ⟨[], .nil, rfl⟩
    · rintro ⟨blocks, left, rfl⟩
      cases left
      exact .nil place
  | cons tree trees ih =>
    constructor
    · intro left
      cases left with
      | cons first rest =>
        cases first with
        | walk walked =>
          obtain ⟨blocks, left, rfl⟩ := ih.mp rest
          exact ⟨_ :: blocks, .cons ⟨_, walked⟩ left, rfl⟩
    · rintro ⟨blocks, left, rfl⟩
      cases left with
      | cons first rest =>
        obtain ⟨table, walked⟩ := first
        exact .cons (.walk walked) (ih.mpr ⟨_, rest, rfl⟩)

theorem free_acts {children : List Tree} (sound : Sound (.node .functionDeclaration children))
    (free : isFreeFunction (.node .functionDeclaration children)) :
    ∃ name parameters body, plainActs .functionDeclaration children =
      [.declare (.function false) name .function, functionAct parameters body none] := by
  have fitting := Tree.admits_of_isShaped sound.shaped
  simp only [Tree.admits, Tree.admitsWithin, Bool.and_eq_true, decide_eq_true_eq] at fitting
  simp only [isFreeFunction, Bool.and_eq_true, Bool.not_eq_true', ← List.head?_filter] at free
  have inside (tree : Tree) (member : tree ∈ children.filter (·.isNode)) : Sound tree :=
    sound.child tree (List.mem_filter.mp member).1
  rw [show plainActs .functionDeclaration children = functionDeclarationActs children from rfl,
    functionDeclarationActs, free.1]
  generalize children.filter (·.isNode) = nodes at fitting free inside ⊢
  obtain ⟨name, rest, rfl, named, others⟩ := List.map_eq_cons_iff.mp fitting.2
  obtain ⟨parameters, rest, rfl, -, others⟩ := List.map_eq_cons_iff.mp others
  obtain ⟨body, rest, rfl, -, others⟩ := List.map_eq_cons_iff.mp others
  cases List.map_eq_nil_iff.mp others
  obtain ⟨parts, rfl⟩ := Tree.node_of_label named
  have leaves := Tree.admits_of_isShaped (inside _ List.mem_cons_self).shaped
  obtain ⟨part, rfl⟩ : ∃ part, parts = [part] := by
    exact List.length_eq_one_iff.mp (of_decide_eq_true free.2)
  cases part with
  | leaf name => exact ⟨name, parameters, body, rfl⟩
  | node => simp [Tree.admits, Label.fits, Tree.isNode, Tree.isLeaf] at leaves

variable {ids : List DeclarationId}

theorem stems_later (stemming : Stemming true trail) {enclosure : Enclosure} {acts : List Act}
    {own : List ScopeId}
    (like : ActLike (Kin true) (.within enclosure true acts) (.within enclosure true acts))
    (obeys : (Act.within enclosure true acts).obeys (settles true)) (fresh : root ∉ own)
    (brings : Brings own ids notes)
    (left : (Act.within enclosure true acts).Leaves trail place notes) :
    ∀ note ∈ notes, note.Stems true own place.chain ids := by
  rw [Act.obeys] at obeys
  cases like with
  | within _ _ like =>
    cases left with
    | within _ _ id inside =>
      obtain ⟨first, rest⟩ := brings_cons.mp brings
      have isOwn : id ∈ own := first.scopes (by simp)
      have below : Below true own place.chain (place.enter id true) := by
        refine ⟨?_, fresh, (nomatch ·), fun _ => Bool.or_true _⟩
        exact List.cons_subset.mpr
          ⟨List.mem_append_left _ isOwn, List.subset_append_right _ _⟩
      rw [List.forall_mem_cons]
      exact ⟨trivial, stems_acts stemming acts like obeys below (fun _ _ => .inl isOwn) rest inside⟩

theorem stems_free {tree : Tree} (kin : Kin true tree tree) (free : isFreeFunction tree)
    {own : List ScopeId} (outermost : place.around.head? = some root) (fresh : root ∉ own)
    (brings : Brings own ids notes) (left : Leaves levels tree place notes table) :
    ∀ note ∈ notes, note.Stems true own place.chain ids := by
  obtain ⟨children, rfl⟩ : ∃ children, tree = .node .functionDeclaration children := by
    unfold isFreeFunction at free
    split at free
    · exact ⟨_, rfl⟩
    · cases free
  cases levels with
  | zero => exact left.elim
  | succ levels =>
    obtain ⟨name, parameters, body, acts⟩ := free_acts kin.2.1 free
    have like : ActsLike (Kin true) (plainActs .functionDeclaration children)
        (plainActs .functionDeclaration children) :=
      (script_like (tracks_kin true) kin (by decide) (by decide)).acts
    have obeys := obeys_function (allows_settles kin.label_not_mem) parameters body none
    rw [acts] at like
    cases left.2 with
    | mk played ended =>
      cases (ended : Ending.nothing.Leaves (Leaves levels) place _ _)
      change LeaveAll (Leaves levels) (plainActs .functionDeclaration children) place _ at played
      rw [acts] at played
      cases played with
      | cons first rest =>
        cases first with
        | declare _ _ _ _ id stamp =>
          cases rest with
          | cons body none =>
            cases none
            rw [List.append_nil, List.append_nil] at brings ⊢
            obtain ⟨-, inner⟩ := brings_append.mp brings
            rw [List.forall_mem_append, List.forall_mem_singleton]
            exact ⟨.inr ⟨rfl, if_pos ⟨outermost, rfl⟩, rfl⟩,
              stems_later (stemming_walk true levels) (List.forall₂_cons.mp (List.forall₂_cons.mp like).2).1
                obeys fresh inner body⟩

def IsFree (tree : Tree) : Prop :=
  Kin true tree tree ∧ (tree.isNode → isFreeFunction tree)

variable {trees sorted : List Tree} {blocks : List (List Note)}

theorem stems_blocks (free : ∀ tree ∈ trees, IsFree tree) (fresh : Fresh place blocks.flatten)
    (outermost : place.around.head? = some root)
    (left : List.Forall₂ (fun tree block => ∃ table, Leaves levels tree place block table)
      trees blocks) :
    ∀ block ∈ blocks, ∀ note ∈ block,
      note.Stems true (scopeIds block) place.chain ((namings block).map (·.id)) := by
  induction left with
  | nil => exact List.forall_mem_nil _
  | @cons tree block trees blocks first _ ih =>
    obtain ⟨own, others⟩ := List.forall_mem_cons.mp free
    rw [List.flatten_cons] at fresh
    rw [List.forall_mem_cons]
    refine ⟨?_, ih others fresh.right⟩
    obtain ⟨table, left⟩ := first
    cases tree with
    | leaf token =>
      obtain ⟨rfl, -⟩ : block = [] ∧ table = none := by
        cases levels <;> exact left
      exact List.forall_mem_nil _
    | node label children =>
      exact stems_free own.1 (own.2 rfl) outermost
        (fun inside => fresh.left.apart inside fresh.rooted)
        ⟨List.Subset.refl _, List.Subset.refl _⟩ left

theorem functions_apart (fresh : Fresh place blocks.flatten)
    (stems : ∀ block ∈ blocks, ∀ note ∈ block,
      note.Stems true (scopeIds block) place.chain ((namings block).map (·.id))) :
    blocks.Pairwise fun first second => ∀ one ∈ first, ∀ two ∈ second, one.Apart true two := by
  have scopes := fresh.scopes
  have declarations := fresh.declarations
  rw [← List.flatMap_id, scopeIds_flatMap, List.nodup_flatMap] at scopes
  rw [← List.flatMap_id, namings_flatMap, List.map_flatMap, List.nodup_flatMap] at declarations
  have away (block : List Note) (isBlock : block ∈ blocks) :
      (scopeIds block).Disjoint place.chain := by
    intro id inside around
    refine fresh.apart ?_ around
    rw [← List.flatMap_id, scopeIds_flatMap]
    exact List.mem_flatMap.mpr ⟨block, isBlock, inside⟩
  refine (scopes.2.and declarations.2).imp_of_mem
    fun {first second} isFirst isSecond ⟨own, declared⟩ one isOne two isTwo => ?_
  exact (stems first isFirst one isOne).apart (stems second isSecond two isTwo) fresh.rooted
    (away first isFirst) (away second isSecond) own declared

/-- What a program of free functions leaves: the root knows nothing that is counted, and all uses
are deferred. -/
structure IsLate (note : Note) : Prop where
  late : ∀ use ∈ note.use?, use.place.deferred
  counted : ∀ naming ∈ note.naming?, naming.home = root →
    naming.kind ≠ .localVariable ∧ naming.kind ≠ .parameter
  unlinked : note.heir? = none

theorem Note.Stems.isLate {note : Note} {own chain : List ScopeId}
    (stems : note.Stems true own chain ids) (fresh : root ∉ own) : IsLate note := by
  cases note with
  | scope | tabulate =>
    exact ⟨fun _ isUse => (by cases isUse), fun _ isNaming => (by cases isNaming), rfl⟩
  | declare naming =>
    refine ⟨fun _ isUse => (by cases isUse), ?_, rfl⟩
    rintro _ ⟨⟩ isRoot
    rcases stems with inside | ⟨-, -, uncounted⟩
    · exact absurd (isRoot ▸ inside) fresh
    · simpa [isUncounted] using uncounted
  | refer use =>
    refine ⟨?_, fun _ isNaming => (by cases isNaming), rfl⟩
    rintro _ ⟨⟩
    exact stems.2 rfl
  | inherit => exact stems.elim

theorem relay_functions (free : ∀ tree ∈ trees, IsFree tree) (perm : trees.Perm sorted)
    (admitted : Tree.admits .program sorted) (distinct : Distinct notes)
    (left : Leaves levels (.node .program trees) .start notes table) :
    (∀ note ∈ notes, IsLate note) ∧
      ∃ others, Leaves levels (.node .program sorted) .start others table ∧
        Rearranged true notes others := by
  rcases levels with _ | levels
  · exact left.elim
  obtain ⟨-, rfl, id, inner, rfl, inside⟩ := leaves_program.mp left
  obtain ⟨blocks, walked, rfl⟩ := leaves_walks.mp inside
  have fresh := distinct.fresh false
  have stems := stems_blocks free fresh rfl walked
  obtain ⟨others, rewalked, moved⟩ := List.perm_comp_forall₂ perm.symm walked
  constructor
  · rw [List.forall_mem_cons]
    refine ⟨⟨fun _ isUse => (by cases isUse), fun _ isNaming => (by cases isNaming), rfl⟩, ?_⟩
    intro note member
    obtain ⟨block, isBlock, own⟩ := List.mem_flatten.mp member
    refine (stems block isBlock note own).isLate fun inside => fresh.apart ?_ fresh.rooted
    rw [← List.flatMap_id, scopeIds_flatMap]
    exact List.mem_flatMap.mpr ⟨block, isBlock, inside⟩
  · exact ⟨_, leaves_program.mpr ⟨admitted, rfl, id, _, rfl, leaves_walks.mpr ⟨others, rewalked, rfl⟩⟩,
      .cons (.same _) (.flatten moved.symm (functions_apart fresh stems))⟩

end Functions

end Squirrel.Analysis

namespace Squirrel

open Analysis

section Samples

def tableProgram (entries : List Tree) : List Tree :=
  [returned (.node .table (bareLeaf .leftBrace "\x7b" :: (entries ++ [bareLeaf .rightBrace "\x7d"]))),
    bareLeaf .endOfInput ""]

def bareFunction (name : String) (value : Tree) : Tree :=
  .node .functionDeclaration [bareLeaf .kwFunction "function",
    .node .functionName [bareLeaf .identifier name],
    .node .parameters [bareLeaf .leftParen "(", bareLeaf .rightParen ")"],
    .node .block [bareLeaf .leftBrace "\x7b", returned value, bareLeaf .rightBrace "\x7d"]]

theorem reordered_swap {first second : Tree}
    (distinct : (([first, second].filterMap slotName?).map (·.1)).Nodup)
    (free : ∀ entry ∈ [first, second], avoids [.inheritCall, .newSlot, .constDeclaration] entry) :
    Reordered (.node .program (tableProgram [first, second]))
      (.node .program (tableProgram [second, first])) :=
  .inside .program [] [bareLeaf .endOfInput ""] <|
    .inside .returnStatement [bareLeaf .kwReturn "return"] [] <|
      .here _ _ (.swap second first []) distinct free

def Diagnostic.gist (diagnostic : Diagnostic) : FaultKind × Severity × String :=
  (diagnostic.kind, diagnostic.severity, diagnostic.message)

theorem not_perm_gist {none some : List Diagnostic} (empty : none.length = 0)
    (found : some.length = 1) : ¬ (none.map Diagnostic.gist).Perm (some.map Diagnostic.gist) := by
  intro perm
  have sizes := perm.length_eq
  rw [List.length_map, List.length_map, empty, found] at sizes
  cases sizes

end Samples

/-- The order of the entries of a table does not matter, wherever in a program it stands, if their
names differ and they neither inherit nor make slots of the root scope or constants: as long as the
walk comes to its end, it does so in any order, and the same faults are found. Trees that are parsed
without faults are sound. -/
theorem entries_any_order [NestingLimit] (known : List String) {children : List Tree} {other : Tree}
    (sound : Sound (.node .program children)) (reordered : Reordered (.node .program children) other)
    (complete : (analyzeTree known (.node .program children)).complete = true) :
    (analyzeTree known other).complete = true ∧
      (analyzeTree known (.node .program children)).diagnostics.Perm
        (analyzeTree known other).diagnostics := by
  obtain ⟨state, walked, -⟩ := complete_walk complete
  obtain ⟨notes, table, left, numbers, -⟩ := walk_left sound walked
  obtain ⟨others, relaid, rearranged⟩ :=
    relay_program ⟨sound, .inr reordered⟩ numbers.distinct left
  exact diagnostics_perm left numbers relaid rearranged (nomatch ·) (nomatch ·) (nomatch ·) known

theorem entries_any_order_siblings :
    (analyzeTree [] (.node .program (tableProgram [bareSlot "a" (bareUse "y"),
        bareSlot "b" (memberChain 2)]))).diagnostics.length = 1 ∧
      (analyzeTree [] (.node .program (tableProgram [bareSlot "b" (memberChain 2),
        bareSlot "a" (bareUse "y")]))).diagnostics.length = 1 := by
  have one : (analyzeTree [] (.node .program (tableProgram [bareSlot "a" (bareUse "y"),
      bareSlot "b" (memberChain 2)]))).diagnostics.length = 1 := by decide +kernel
  have order := entries_any_order [] ⟨by decide +kernel, by decide +kernel, by decide +kernel⟩
    (@reordered_swap (bareSlot "a" (bareUse "y")) (bareSlot "b" (memberChain 2))
      (by decide) (by decide +kernel)) (by decide +kernel)
  exact ⟨one, order.2.length_eq ▸ one⟩

/-- A walk that is cut off in one entry never comes to the entries after it. -/
theorem entries_order_cut : ¬ ∀ (known : List String) (children : List Tree) (other : Tree),
    Sound (.node .program children) → Reordered (.node .program children) other →
      ((analyzeTree known (.node .program children)).diagnostics.map Diagnostic.gist).Perm
        ((analyzeTree known other).diagnostics.map Diagnostic.gist) := by
  intro claimed
  refine not_perm_gist ?_ ?_ (claimed [] _ _ ?_ (@reordered_swap
    (bareSlot "a" (memberChain nestingLimit)) (bareSlot "b" (bareUse "y")) ?_ ?_))
  · decide +kernel
  · decide +kernel
  · exact ⟨by decide +kernel, by decide +kernel, by decide +kernel⟩
  · decide
  · decide +kernel

/-- The order of the functions of a program does not matter, if it consists of functions that are
not local and have single names, and nothing in it inherits: as long as the walk comes to its end,
it does so in any order, and the same faults are found. -/
theorem functions_any_order [NestingLimit] (known : List String) {functions sorted : List Tree}
    {last : Token}
    (sound : Sound (.node .program (functions ++ [.leaf last])))
    (free : ∀ function ∈ functions, isFreeFunction function = true)
    (plain : ∀ function ∈ functions, avoids [.inheritCall] function = true)
    (perm : functions.Perm sorted)
    (complete : (analyzeTree known (.node .program (functions ++ [.leaf last]))).complete = true) :
    (analyzeTree known (.node .program (sorted ++ [.leaf last]))).complete = true ∧
      (analyzeTree known (.node .program (functions ++ [.leaf last]))).diagnostics.Perm
        (analyzeTree known (.node .program (sorted ++ [.leaf last]))).diagnostics := by
  obtain ⟨state, walked, -⟩ := complete_walk complete
  obtain ⟨notes, table, left, numbers, -⟩ := walk_left sound walked
  have isFree : ∀ tree ∈ functions ++ [.leaf last], IsFree tree := by
    intro tree member
    refine ⟨⟨rfl, sound.child tree member, ?_⟩, ?_⟩
    all_goals rcases List.mem_append.mp member with inside | isLast
    · exact plain tree inside
    · rw [List.mem_singleton.mp isLast]
      rfl
    · exact fun _ => free tree inside
    · rw [List.mem_singleton.mp isLast]
      exact (nomatch ·)
  have admitted : Tree.admits .program (sorted ++ [.leaf last]) := by
    have fitting := Tree.admits_of_isShaped sound.shaped
    simpa [Tree.admits, Tree.admitsWithin, Label.fits, Tree.isNode, Tree.isLeaf,
      List.dropLast_concat, perm.mem_iff] using fitting
  obtain ⟨isLate, others, relaid, rearranged⟩ :=
    relay_functions isFree (perm.append_right _) admitted numbers.distinct left
  refine diagnostics_perm left numbers relaid rearranged (fun _ note member => (isLate note member).late)
    (fun _ naming member => ?_) (fun _ => ?_) known
  · obtain ⟨note, inside, named⟩ := List.mem_filterMap.mp member
    exact (isLate note inside).counted naming named
  · exact List.filterMap_eq_nil_iff.mpr fun note member => (isLate note member).unlinked

theorem functions_any_order_pair :
    (analyzeTree [] (.node .program ([bareFunction "f" (bareUse "g"),
        bareFunction "g" (bareUse "y")] ++ [bareLeaf .endOfInput ""]))).diagnostics.length = 1 ∧
      (analyzeTree [] (.node .program ([bareFunction "g" (bareUse "y"),
        bareFunction "f" (bareUse "g")] ++ [bareLeaf .endOfInput ""]))).diagnostics.length = 1 := by
  have one : (analyzeTree [] (.node .program ([bareFunction "f" (bareUse "g"),
      bareFunction "g" (bareUse "y")] ++ [bareLeaf .endOfInput ""]))).diagnostics.length = 1 := by
    decide +kernel
  have order := functions_any_order [] ⟨by decide +kernel, by decide +kernel, by decide +kernel⟩
    (by decide +kernel) (by decide +kernel)
    (.swap (bareFunction "g" (bareUse "y")) (bareFunction "f" (bareUse "g")) [])
    (show (analyzeTree [] (.node .program ([bareFunction "f" (bareUse "g"),
      bareFunction "g" (bareUse "y")] ++ [bareLeaf .endOfInput ""]))).complete = true by
      decide +kernel)
  exact ⟨one, order.2.length_eq ▸ one⟩

/-- A walk that is cut off in one function never comes to the functions after it. -/
theorem functions_order_cut : ¬ ∀ (known : List String) (functions sorted : List Tree) (last : Token),
    Sound (.node .program (functions ++ [.leaf last])) →
    (∀ function ∈ functions, isFreeFunction function = true) →
    (∀ function ∈ functions, avoids [.inheritCall] function = true) → functions.Perm sorted →
      ((analyzeTree known (.node .program (functions ++ [.leaf last]))).diagnostics.map
        Diagnostic.gist).Perm
        ((analyzeTree known (.node .program (sorted ++ [.leaf last]))).diagnostics.map
          Diagnostic.gist) := by
  intro claimed
  refine not_perm_gist ?_ ?_ (claimed [] _ _ ⟨⟨.endOfInput, ""⟩, ⟨0, 0, 1, 1⟩, [], []⟩ ?_ ?_ ?_
    (.swap (bareFunction "g" (bareUse "y")) (bareFunction "f" (memberChain nestingLimit)) []))
  · decide +kernel
  · decide +kernel
  · exact ⟨by decide +kernel, by decide +kernel, by decide +kernel⟩
  · decide +kernel
  · decide +kernel

end Squirrel
