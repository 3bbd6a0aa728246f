import Mathlib.Data.List.Perm.Basic
import Squirrel.Proofs.Analysis.Stems

/-! A tree in which the entries of a table change places leaves the same notes in another order. -/

namespace Squirrel.Analysis

open ScopeGraph (root)

section Blocks

variable {loose : Bool} {own other chain : List ScopeId} {ids further : List DeclarationId}

theorem Note.Stems.apart {one two : Note} (first : one.Stems loose own chain ids)
    (second : two.Stems loose other chain further) (rooted : root ∈ chain)
    (away : own.Disjoint chain) (off : other.Disjoint chain) (scopes : own.Disjoint other)
    (declarations : ids.Disjoint further) : one.Apart loose two := by
  have free {naming : Naming} {use : Use} {inner outer : List ScopeId}
      (home : naming.home ∈ inner ∨
        (loose ∧ naming.home = root ∧ isUncounted naming.kind))
      (chained : use.place.chain ⊆ outer ++ chain ∧ (loose → use.place.deferred))
      (aside : inner.Disjoint chain) (disjoint : inner.Disjoint outer) :
      naming.IsFree loose use := by
    rcases home with inside | ⟨isLoose, isRoot, -⟩
    · refine .inl fun member => ?_
      rcases List.mem_append.mp (chained.1 member) with outside | around
      · exact disjoint inside outside
      · exact aside inside around
    · exact .inr ⟨isLoose, isRoot, chained.2 isLoose⟩
  cases one with
  | inherit => exact first.elim
  | declare naming =>
    cases two with
    | inherit => exact second.elim
    | declare another =>
      by_cases meets : naming.meets another
      · have same := (Naming.meets_iff.mp meets).1
        rcases first with inside | ⟨isLoose, isRoot, -⟩
        · rcases second with there | ⟨-, isRoot, -⟩
          · exact absurd (same ▸ there) (scopes inside)
          · exact absurd ((same.symm.trans isRoot) ▸ rooted) (away inside)
        · exact .inr ⟨isLoose, isRoot, same.trans isRoot⟩
      · exact .inl (Bool.eq_false_iff.mpr meets)
    | refer use => exact free first second away scopes
    | scope => trivial
    | tabulate => trivial
  | refer use =>
    cases two with
    | inherit => exact second.elim
    | declare naming => exact free second first off (List.disjoint_symm scopes)
    | _ => trivial
  | tabulate id table =>
    cases two with
    | inherit => exact second.elim
    | tabulate another table' =>
      rintro rfl
      exact declarations first second
    | _ => trivial
  | scope =>
    cases two with
    | inherit => exact second.elim
    | _ => trivial

end Blocks

section Fresh

/-- Notes whose scopes are new at a place, and whose declarations all differ. -/
structure Fresh (place : Place) (notes : List Note) : Prop where
  inner : place.here ≠ root
  rooted : root ∈ place.chain
  apart : (scopeIds notes).Disjoint place.chain
  scopes : (scopeIds notes).Nodup
  declarations : ((namings notes).map (·.id)).Nodup

variable {place : Place} {notes others : List Note}

theorem Fresh.sublist (fresh : Fresh place notes) (less : others.Sublist notes) :
    Fresh place others where
  inner := fresh.inner
  rooted := fresh.rooted
  apart := List.disjoint_of_subset_left (less.filterMap _).subset fresh.apart
  scopes := fresh.scopes.sublist (less.filterMap _)
  declarations := fresh.declarations.sublist ((less.filterMap _).map _)

theorem Fresh.left (fresh : Fresh place (notes ++ others)) : Fresh place notes :=
  fresh.sublist (List.sublist_append_left _ _)

theorem Fresh.right (fresh : Fresh place (notes ++ others)) : Fresh place others :=
  fresh.sublist (List.sublist_append_right _ _)

theorem Fresh.enter {id : ScopeId} {kind : ScopeKind} {outer : ScopeId}
    (fresh : Fresh place (.scope id kind outer :: notes)) (later : Bool) :
    Fresh (place.enter id later) notes := by
  have first : id ∉ place.chain := fresh.apart (by simp)
  obtain ⟨new, distinct⟩ := List.nodup_cons.mp
    (show (id :: scopeIds notes).Nodup by simpa using fresh.scopes)
  have inner : id ≠ root := fun isRoot => first (isRoot ▸ fresh.rooted)
  refine ⟨inner, List.mem_cons_of_mem _ fresh.rooted, ?_,
    distinct, by simpa using fresh.declarations⟩
  intro other member around
  rcases List.mem_cons.mp around with rfl | further
  · exact new member
  · exact fresh.apart (by simp [member]) further

end Fresh

section Tables

variable {place : Place} {trail : Trail} {entries : List Tree}
  {blocks : List (List Note × List Note)}

theorem scopeIds_flatMap {α : Type} (values : List α) (notes : α → List Note) :
    scopeIds (values.flatMap notes) = values.flatMap fun value => scopeIds (notes value) :=
  List.filterMap_flatMap

theorem namings_flatMap {α : Type} (values : List α) (notes : α → List Note) :
    namings (values.flatMap notes) = values.flatMap fun value => namings (notes value) :=
  List.filterMap_flatMap

theorem slot_names (filled : List.Forall₂ (EntryLeaves trail place) entries blocks) :
    (namings (blocks.flatMap (·.1))).map (·.name) = (entries.filterMap slotName?).map (·.1) := by
  induction filled with
  | nil => rfl
  | @cons entry block entries blocks first _ ih =>
    rw [List.flatMap_cons, namings_append, List.map_append, ih]
    obtain ⟨slot, -⟩ := first
    generalize block.1 = notes at slot ⊢
    cases slot with
    | named id stamp isNamed =>
      rw [List.filterMap_cons_some isNamed]
      rfl
    | unnamed noName =>
      rw [List.filterMap_cons_none noName]
      rfl

theorem slot_note {entry : Tree} {notes : List Note} (slot : SlotLeaves place entry notes) :
    ∀ note ∈ notes, ∃ naming ∈ namings notes, note = .declare naming := by
  cases slot with
  | named id stamp isNamed =>
    rw [List.forall_mem_singleton]
    exact ⟨_, by simp, rfl⟩
  | unnamed noName => exact List.forall_mem_nil _

theorem slots_apart (filled : List.Forall₂ (EntryLeaves trail place) entries blocks)
    (distinct : ((entries.filterMap slotName?).map (·.1)).Nodup) :
    (blocks.map (·.1)).Pairwise fun first second =>
      ∀ one ∈ first, ∀ two ∈ second, one.Apart false two := by
  rw [← slot_names filled, namings_flatMap, List.map_flatMap, List.nodup_flatMap] at distinct
  rw [List.pairwise_map]
  refine distinct.2.imp_of_mem fun {first second} isFirst isSecond apart one isOne two isTwo => ?_
  obtain ⟨entry, -, leaves⟩ := exists_entry filled first isFirst
  obtain ⟨another, -, leaves'⟩ := exists_entry filled second isSecond
  obtain ⟨naming, named, rfl⟩ := slot_note leaves.slot one isOne
  obtain ⟨other, named', rfl⟩ := slot_note leaves'.slot two isTwo
  refine .inl (Bool.eq_false_iff.mpr fun meets => ?_)
  have same := (Naming.meets_iff.mp meets).2
  exact apart (List.mem_map_of_mem named) (same ▸ List.mem_map_of_mem named')

def blockIds (block : List Note × List Note) : List DeclarationId :=
  (namings block.2).map (·.id) ++ (namings block.1).map (·.id)

theorem blockIds_apart
    (distinct : ((namings (blocks.flatMap (·.1) ++ blocks.flatMap (·.2))).map (·.id)).Nodup) :
    blocks.Pairwise fun first second => (blockIds first).Disjoint (blockIds second) := by
  rw [namings_append, List.map_append, List.nodup_append', namings_flatMap, namings_flatMap,
    List.map_flatMap, List.map_flatMap, List.nodup_flatMap, List.nodup_flatMap] at distinct
  obtain ⟨⟨-, slots⟩, ⟨-, fills⟩, apart⟩ := distinct
  refine (slots.and fills).imp_of_mem fun {first second} isFirst isSecond ⟨slot, fill⟩ => ?_
  have mixed {block other : List Note × List Note} (isBlock : block ∈ blocks) (isOther : other ∈ blocks) :
      ((namings block.1).map (·.id)).Disjoint ((namings other.2).map (·.id)) :=
    fun id inside there => apart (List.mem_flatMap.mpr ⟨block, isBlock, inside⟩)
      (List.mem_flatMap.mpr ⟨other, isOther, there⟩)
  unfold blockIds
  rw [List.disjoint_append_left, List.disjoint_append_right, List.disjoint_append_right]
  exact ⟨⟨fill, List.disjoint_symm (mixed isSecond isFirst)⟩, mixed isFirst isSecond, slot⟩

theorem fills_apart (stemming : Stemming false trail)
    (kin : ∀ entry ∈ entries, Kin false entry entry)
    (filled : List.Forall₂ (EntryLeaves trail place) entries blocks)
    (outside : place.around.head? ≠ some root)
    (fresh : Fresh place (blocks.flatMap (·.1) ++ blocks.flatMap (·.2))) :
    (blocks.map (·.2)).Pairwise fun first second =>
      ∀ one ∈ first, ∀ two ∈ second, one.Apart false two := by
  have scopes := fresh.right.scopes
  rw [scopeIds_flatMap, List.nodup_flatMap] at scopes
  have away (block : List Note × List Note) (isBlock : block ∈ blocks) :
      (scopeIds block.2).Disjoint place.chain := by
    intro id inside around
    refine fresh.right.apart ?_ around
    rw [scopeIds_flatMap]
    exact List.mem_flatMap.mpr ⟨block, isBlock, inside⟩
  have stems (block : List Note × List Note) (isBlock : block ∈ blocks) :
      ∀ note ∈ block.2, note.Stems false (scopeIds block.2) place.chain (blockIds block) := by
    obtain ⟨entry, isEntry, leaves⟩ := exists_entry filled block isBlock
    refine stems_block stemming (kin entry isEntry) ?_ (.inr rfl) ?_ ?_ leaves
    · exact ⟨List.subset_append_right _ _,
        fun inside => away block isBlock inside fresh.rooted,
        fun _ => ⟨fresh.inner, outside⟩, fun isLoose => by cases isLoose⟩
    · exact ⟨List.Subset.refl _, List.subset_append_left _ _⟩
    · intro id isSlot
      obtain ⟨naming, first, rfl⟩ := Option.map_eq_some_iff.mp isSlot
      exact List.mem_append_right _ (List.mem_map_of_mem (List.mem_of_head? first))
  rw [List.pairwise_map]
  refine (scopes.2.and (blockIds_apart fresh.declarations)).imp_of_mem
    fun {first second} isFirst isSecond ⟨own, declared⟩ one isOne two isTwo => ?_
  exact (stems first isFirst one isOne).apart (stems second isSecond two isTwo) fresh.rooted
    (away first isFirst) (away second isSecond) own declared

theorem relay_entries (stemming : Stemming false trail) {sorted : List Tree}
    (perm : entries.Perm sorted) (kin : ∀ entry ∈ entries, Kin false entry entry)
    (distinct : ((entries.filterMap slotName?).map (·.1)).Nodup)
    (filled : List.Forall₂ (EntryLeaves trail place) entries blocks)
    (outside : place.around.head? ≠ some root)
    (fresh : Fresh place (blocks.flatMap (·.1) ++ blocks.flatMap (·.2))) :
    ∃ others, List.Forall₂ (EntryLeaves trail place) sorted others ∧
      Rearranged false (blocks.flatMap (·.1) ++ blocks.flatMap (·.2))
        (others.flatMap (·.1) ++ others.flatMap (·.2)) := by
  obtain ⟨others, refilled, moved⟩ := List.perm_comp_forall₂ perm.symm filled
  refine ⟨others, refilled, ?_⟩
  simp only [List.flatMap_def]
  exact (Rearranged.flatten (moved.symm.map _) (slots_apart filled distinct)).append
    (Rearranged.flatten (moved.symm.map _) (fills_apart stemming kin filled outside fresh))

end Tables

section Trees

/-- One table of a tree has its entries in another order. Their names differ, and they neither make
slots of the root scope or constants nor inherit. -/
inductive Reordered : Tree → Tree → Prop
  | here (opener closer : Token) {inner sorted : List Tree} (perm : inner.Perm sorted)
      (distinct : ((inner.filterMap slotName?).map (·.1)).Nodup)
      (free : ∀ child ∈ inner, avoids [.inheritCall, .newSlot, .constDeclaration] child) :
    Reordered (.node .table (.leaf opener :: (inner ++ [.leaf closer])))
      (.node .table (.leaf opener :: (sorted ++ [.leaf closer])))
  | inside (label : Label) (before after : List Tree) {tree other : Tree}
      (changed : Reordered tree other) :
    Reordered (.node label (before ++ tree :: after)) (.node label (before ++ other :: after))

def Varies (tree other : Tree) : Prop := Sound tree ∧ (other = tree ∨ Reordered tree other)

theorem Varies.refl {tree : Tree} (sound : Sound tree) : Varies tree tree := ⟨sound, .inl rfl⟩

/-- What stands between the tokens of a table changes places. -/
structure Shuffles (children others : List Tree) : Prop where
  shuffled : ∃ opener closer inner sorted, children = .leaf opener :: (inner ++ [.leaf closer]) ∧
    others = .leaf opener :: (sorted ++ [.leaf closer]) ∧ inner.Perm sorted ∧
    ((inner.filterMap slotName?).map (·.1)).Nodup ∧
    ∀ child ∈ inner, avoids [.inheritCall, .newSlot, .constDeclaration] child

theorem Varies.node {label : Label} {children : List Tree} {tree : Tree}
    (varies : Varies (.node label children) tree) : ∃ others, tree = .node label others ∧
      (List.Forall₂ Varies children others ∨ (label = .table ∧ Shuffles children others)) := by
  obtain ⟨sound, rfl | changed⟩ := varies
  · exact ⟨children, rfl, .inl
      (List.forall₂_same.mpr fun child member => .refl (sound.child child member))⟩
  · cases changed with
    | here opener closer perm distinct free =>
      exact ⟨_, rfl, .inr ⟨rfl, _, _, _, _, rfl, rfl, perm, distinct, free⟩⟩
    | inside _ before after changed =>
      refine ⟨_, rfl, .inl (List.rel_append ?_ (.cons ?_ ?_))⟩
      · exact List.forall₂_same.mpr fun child member => .refl (sound.child child (by simp [member]))
      · exact ⟨sound.child _ (by simp), .inr changed⟩
      · exact List.forall₂_same.mpr fun child member => .refl (sound.child child (by simp [member]))

theorem Varies.leaf {token : Token} {tree : Tree} (varies : Varies (.leaf token) tree) :
    tree = .leaf token := by
  rcases varies.2 with same | changed
  · exact same
  · cases changed

theorem tracks_varies : Tracks Varies := by
  refine .of_children Varies.leaf (fun like => ?_) (fun like => like.1.composed)
    (fun like => like.1.shaped)
  obtain ⟨others, isNode, alike⟩ := like.node
  exact ⟨others, isNode, fun plain => alike.resolve_right fun shuffled => plain shuffled.1⟩

theorem Reordered.ends {tree other : Tree} (changed : Reordered tree other) :
    other.tokens.head? = tree.tokens.head? ∧ other.tokens.getLast? = tree.tokens.getLast? := by
  induction changed with
  | here opener closer perm _ _ => simp [List.getLast?_cons, List.getLast?_append]
  | inside label before after _ ih => simp [List.head?_append, List.getLast?_append, ih]

theorem Varies.span {tree other : Tree} (varies : Varies tree other) : other.span = tree.span := by
  rcases varies.2 with rfl | changed
  · rfl
  · obtain ⟨first, last⟩ := changed.ends
    unfold Tree.span Tree.range
    simp only [Tree.firstToken?_eq, Tree.lastToken?_eq, first, last]

theorem Varies.slotName {entry another : Tree} (varies : Varies entry another) :
    slotName? entry = slotName? another := by
  have same := slotName_like tracks_varies varies
  generalize slotName? entry = slot at same ⊢
  generalize slotName? another = other at same ⊢
  cases same with
  | none => rfl
  | some like =>
    obtain ⟨sameName, key, _, named, place, otherPlace⟩ := like
    cases named.leaf
    rw [Option.some.injEq]
    exact Prod.ext sameName.symm (place.trans otherPlace.symm)

variable {Like : Tree → Tree → Prop} {children others : List Tree}

theorem member_name (tracks : Tracks Like) (like : List.Forall₂ Like children others) :
    baseName? (.node .member others) = baseName? (.node .member children) := by
  rcases like with _ | ⟨_, _ | ⟨_, _ | ⟨last, _ | ⟨_, _⟩⟩⟩⟩
  case cons.cons.cons.nil =>
    rcases tracks.alike last with ⟨_, _, rfl, rfl, -⟩ | ⟨_, _, _, rfl, rfl⟩
    · simp only [baseName?, tracks.text last]
    · rfl
  all_goals simp only [baseName?]

theorem literal_name (tracks : Tracks Like) (like : List.Forall₂ Like children others) :
    baseName? (.node .literal others) = baseName? (.node .literal children) := by
  rcases like with _ | ⟨first, _⟩
  · rfl
  · rcases tracks.alike first with ⟨_, _, rfl, rfl, -⟩ | ⟨_, _, _, rfl, rfl⟩
    · simp only [baseName?, tracks.text first, tracks.kind first]
    · rfl

theorem baseName_like (tracks : Tracks Like) {base other : Tree} (like : Like base other) :
    baseName? other = baseName? base := by
  rcases tracks.name_or like with ⟨name, _, rfl, rfl, named⟩ | ⟨noName, -⟩
  · simp only [baseName?, tracks.text named]
  rcases tracks.root_or like with ⟨_, name, _, _, rfl, rfl, named⟩ | ⟨noRoot, -⟩
  · simp only [baseName?, tracks.text named]
  cases base with
  | leaf token =>
    obtain ⟨_, rfl, -⟩ := tracks.leaf like
    rfl
  | node label children =>
    obtain ⟨others, rfl, alike, -⟩ := tracks.node like
    cases label
    case reference => cases noName
    case rootReference => cases noRoot
    case member => exact member_name tracks (alike rfl)
    case literal => exact literal_name tracks (alike rfl)
    all_goals rfl

theorem Varies.appeal {base other : Tree} (varies : Varies base other) :
    appeal other = appeal base := by
  have labelled : other.label? = base.label? := by
    rcases tracks_varies.alike varies with ⟨_, _, rfl, rfl, -⟩ | ⟨_, _, _, rfl, rfl⟩ <;> rfl
  unfold Analysis.appeal Tree.hasLabel
  rw [baseName_like tracks_varies varies, labelled, varies.span]

end Trees

section Shapes

theorem isSome_like {α β : Type} {rel : α → β → Prop} {one : Option α} {another : Option β}
    (like : Option.Rel rel one another) : one.isSome = another.isSome := by
  cases like <;> rfl

variable {Like : Tree → Tree → Prop} (tracks : Tracks Like) {label : Label}
  {children others : List Tree} {tree other : Tree}

include tracks

theorem Tracks.sameLabel (like : Like tree other) : other.label? = tree.label? := by
  rcases tracks.alike like with ⟨_, _, rfl, rfl, -⟩ | ⟨_, _, _, rfl, rfl⟩ <;> rfl

theorem Tracks.map_label (like : List.Forall₂ Like children others) :
    others.map (·.label?) = children.map (·.label?) := by
  induction like with
  | nil => rfl
  | cons first _ ih => rw [List.map_cons, List.map_cons, tracks.sameLabel first, ih]

theorem Tracks.kinds (like : List.Forall₂ Like children others) :
    others.map (·.isNode) = children.map (·.isNode) := by
  induction like with
  | nil => rfl
  | cons first _ ih => rw [List.map_cons, List.map_cons, tracks.isNode first, ih]

theorem Tracks.nodesAre (labels : List Label) (like : List.Forall₂ Like children others) :
    Tree.nodesAre labels others = Tree.nodesAre labels children := by
  unfold Tree.nodesAre
  induction like with
  | nil => rfl
  | cons first _ ih =>
    rw [List.all_cons, List.all_cons, ih, tracks.sameLabel first]
    rcases tracks.alike first with ⟨_, _, rfl, rfl, -⟩ | ⟨_, _, _, rfl, rfl⟩ <;> rfl

omit tracks in
theorem isNamed_eq (list : Tree) :
    (list.subtrees.head?.any fun parameter => parameter.children.head?.any (·.isLeaf)) =
      ((list.subtrees.head?.bind (·.children.head?)).bind (·.token?)).isSome := by
  rcases list.subtrees.head? with _ | parameter
  · rfl
  · rw [Option.any_some, Option.bind_some]
    rcases parameter.children.head? with _ | (_ | _) <;> rfl

theorem admitsWithin_like (like : Like (.node label children) (.node label others))
    (alike : List.Forall₂ Like children others) :
    Tree.admitsWithin label others = Tree.admitsWithin label children := by
  have composed := tracks.composed like
  simp only [Tree.everywhere_node, Tree.isComposed, Bool.and_eq_true] at composed
  cases label
  case localDeclaration | parameters | table => exact tracks.nodesAre _ alike
  case switchStatement => exact tracks.nodesAre _ (List.forall₂_drop 4 alike)
  case functionDeclaration =>
    simp only [Tree.admitsWithin, tracks.map_label (tracks.nodes alike)]
  case functionLiteral | lambdaLiteral =>
    rcases alike with _ | ⟨_, _ | ⟨list, _ | ⟨_, _ | _⟩⟩⟩
    case cons.cons.cons.nil => simp only [Tree.admitsWithin, Tree.hasLabel, tracks.sameLabel list]
    all_goals rfl
  case tableMethod =>
    rcases alike with _ | ⟨_, _ | ⟨_, _ | ⟨list, _ | ⟨_, _ | _⟩⟩⟩⟩
    case cons.cons.cons.cons.nil => simp only [Tree.admitsWithin, Tree.hasLabel, tracks.sameLabel list]
    all_goals rfl
  case inheritCall =>
    rcases alike with _ | ⟨_, _ | ⟨list, _ | _⟩⟩
    case cons.cons.nil =>
      have isList : (Tree.hasLabel _ .arguments) := composed.1.2
      have parts := tracks.subtrees list (by rw [of_decide_eq_true isList]; decide)
        (by rw [of_decide_eq_true isList]; decide)
      simp only [Tree.admitsWithin]
      generalize Tree.subtrees _ = own at parts ⊢
      generalize Tree.subtrees _ = rest at parts ⊢
      rcases parts with _ | ⟨_, _ | ⟨body, _ | _⟩⟩
      case cons.cons.nil => simp only [Tree.hasLabel, tracks.sameLabel body]
      all_goals rfl
    all_goals rfl
  case hookWrapper =>
    rcases alike with _ | ⟨_, _ | ⟨list, _ | ⟨function, _ | _⟩⟩⟩
    case cons.cons.cons.nil =>
      have isList : (Tree.hasLabel _ .parameters) := composed.1.2
      have named := hookName_like tracks list (of_decide_eq_true isList)
      simp only [Tree.admitsWithin, isNamed_eq, Tree.hasLabel, tracks.sameLabel function,
        isSome_like named]
    all_goals rfl
  all_goals rfl

theorem admits_like (like : Like (.node label children) (.node label others))
    (alike : List.Forall₂ Like children others) :
    Tree.admits label others = Tree.admits label children := by
  rw [Tree.admits, Tree.admits, tracks.kinds alike, admitsWithin_like tracks like alike]

end Shapes

section Relaying

/-- A tree with one table reordered leaves the same notes in another order. -/
def Relays (trail : Trail) : Prop :=
  ∀ tree other place notes table, Varies tree other → Fresh place notes →
    trail tree place notes table →
      ∃ others, trail other place others table ∧ Rearranged false notes others

variable {trail : Trail} {place : Place} {notes : List Note} {table : Option ScopeId}

theorem relay_value (relays : Relays trail) {value? other? : Option Tree}
    (like : Option.Rel Varies value? other?) (fresh : Fresh place notes)
    (valued : ValueLeaves trail place value? notes table) :
    ∃ others, ValueLeaves trail place other? others table ∧ Rearranged false notes others := by
  cases like with
  | none =>
    cases valued
    exact ⟨[], .none, .nil⟩
  | some like =>
    cases valued with
    | some walked =>
      obtain ⟨others, left, rearranged⟩ := relays _ _ _ _ _ like fresh walked
      exact ⟨others, .some left, rearranged⟩

mutual

theorem relay_act (relays : Relays trail) : (act : Act) → ∀ {another place notes},
    ActLike Varies act another → Fresh place notes → act.Leaves trail place notes →
      ∃ others, another.Leaves trail place others ∧ Rearranged false notes others
  | .walk tree, _, _, _, like, fresh, leaves => by
    cases like with
    | walk like =>
      cases leaves with
      | walk walked =>
        obtain ⟨others, left, rearranged⟩ := relays _ _ _ _ _ like fresh walked
        exact ⟨others, .walk left, rearranged⟩
  | .refer .., _, _, _, .refer named _ _ _, _, leaves => by
    cases named.leaf
    exact ⟨_, leaves, .refl _⟩
  | .declare .., _, _, _, .declare _ named _, _, leaves => by
    cases named.leaf
    exact ⟨_, leaves, .refl _⟩
  | .excuse .., _, _, _, .excuse named, _, leaves => by
    cases named.leaf
    exact ⟨_, leaves, .refl _⟩
  | .bind home name kind value?, _, _, _, like, fresh, leaves => by
    cases like with
    | bind _ named _ like =>
      cases named.leaf
      cases leaves with
      | bind _ _ _ id stamp valued =>
        obtain ⟨others, left, rearranged⟩ := relay_value relays like fresh.left valued
        exact ⟨_, .bind home name kind id stamp left, rearranged.postpend _⟩
  | .recover tokens, _, _, _, _, _, leaves => nomatch leaves
  | .within enclosure later acts, _, _, _, like, fresh, leaves => by
    cases like with
    | within _ _ like =>
      cases leaves with
      | within _ _ id inside =>
        obtain ⟨others, left, rearranged⟩ := relay_acts relays acts like (fresh.enter later) inside
        exact ⟨_, .within enclosure later id left, .cons (.same _) rearranged⟩
  | .fail label, _, _, _, _, _, leaves => nomatch leaves

theorem relay_acts (relays : Relays trail) : (acts : List Act) → ∀ {more place notes},
    ActsLike Varies acts more → Fresh place notes → LeaveAll trail acts place notes →
      ∃ others, LeaveAll trail more place others ∧ Rearranged false notes others
  | [], _, place, _, like, _, leaves => by
    cases like
    exact ⟨_, leaves, .refl _⟩
  | act :: acts, _, _, _, like, fresh, leaves => by
    obtain ⟨another, more, first, rest, rfl⟩ := List.forall₂_cons_left_iff.mp like
    cases leaves with
    | cons one others =>
      obtain ⟨early, left, moved⟩ := relay_act relays act first fresh.left one
      obtain ⟨late, laid, shifted⟩ := relay_acts relays acts rest fresh.right others
      exact ⟨_, .cons left laid, moved.append shifted⟩

end

theorem relay_filling (relays : Relays trail) {filling another : Filling}
    {slot : Option DeclarationId} (like : FillingLike Varies filling another)
    (fresh : Fresh place notes) (leaves : filling.Leaves trail place slot notes) :
    ∃ others, another.Leaves trail place slot others ∧ Rearranged false notes others := by
  cases like with
  | acts like =>
    cases leaves with
    | acts _ played =>
      obtain ⟨others, left, rearranged⟩ := relay_acts relays _ like fresh played
      exact ⟨others, .acts slot left, rearranged⟩
  | value like =>
    cases leaves with
    | value id walked =>
      obtain ⟨others, left, rearranged⟩ := relays _ _ _ _ _ like fresh.left walked
      exact ⟨_, .value id left, rearranged.postpend _⟩
  | fails =>
    cases leaves with
    | acts _ played => cases played with | cons failed => cases failed

theorem slot_like {entry another : Tree} (same : slotName? entry = slotName? another)
    (slot : SlotLeaves place entry notes) : SlotLeaves place another notes := by
  cases slot with
  | named id stamp isNamed => exact .named id stamp (same ▸ isNamed)
  | unnamed noName => exact .unnamed (same ▸ noName)

theorem relay_inside (relays : Relays trail) {entries others : List Tree}
    {blocks : List (List Note × List Note)} (like : List.Forall₂ Varies entries others)
    (filled : List.Forall₂ (EntryLeaves trail place) entries blocks)
    (fresh : Fresh place (blocks.flatMap (·.2))) :
    ∃ relaid, List.Forall₂ (EntryLeaves trail place) others relaid ∧
      relaid.flatMap (·.1) = blocks.flatMap (·.1) ∧
        Rearranged false (blocks.flatMap (·.2)) (relaid.flatMap (·.2)) := by
  induction filled generalizing others with
  | nil =>
    cases like
    exact ⟨[], .nil, rfl, .nil⟩
  | @cons entry block entries blocks first _ ih =>
    obtain ⟨another, more, alike, rest, rfl⟩ := List.forall₂_cons_left_iff.mp like
    rw [List.flatMap_cons] at fresh
    obtain ⟨late, left, moved⟩ :=
      relay_filling relays (filling_like tracks_varies alike) fresh.left first.filled
    obtain ⟨relaid, refilled, slots, shifted⟩ := ih rest fresh.right
    have slot := slot_like alike.slotName first.slot
    refine ⟨(block.1, late) :: relaid, .cons ⟨slot, left⟩ refilled, ?_, ?_⟩
    · rw [List.flatMap_cons, List.flatMap_cons, slots]
    · rw [List.flatMap_cons, List.flatMap_cons]
      exact moved.append shifted

theorem kin_entries {opener closer : Token} {inner : List Tree}
    (sound : Sound (.node .table (.leaf opener :: (inner ++ [.leaf closer]))))
    (free : ∀ child ∈ inner, avoids [.inheritCall, .newSlot, .constDeclaration] child) :
    ∀ entry ∈ inner.filter (·.isNode), Kin false entry entry := by
  intro entry member
  obtain ⟨inside, isNode⟩ := List.mem_filter.mp member
  have listed : entry ∈ .leaf opener :: (inner ++ [.leaf closer]) := by simp [inside]
  exact ⟨rfl, sound.entries entry (List.mem_filter.mpr ⟨listed, isNode⟩), free entry inside⟩

theorem filter_enclosed (opener closer : Token) (inner : List Tree) :
    (Tree.leaf opener :: (inner ++ [.leaf closer])).filter (·.isNode) =
      inner.filter (·.isNode) := by
  simp [List.filter_append]

variable {children others : List Tree}

theorem relay_table (relays : Relays trail) (stemming : Stemming false trail)
    (sound : Sound (.node .table children))
    (alike : List.Forall₂ Varies children others ∨ Shuffles children others)
    (fresh : Fresh place notes)
    (leaves : (Ending.table (children.filter (·.isNode))).Leaves trail place notes table) :
    ∃ relaid, (Ending.table (others.filter (·.isNode))).Leaves trail place relaid table ∧
      Rearranged false notes relaid := by
  cases leaves with
  | table id filled =>
    have entered := fresh.enter false
    rcases alike with like | ⟨opener, closer, inner, sorted, rfl, rfl, perm, distinct, free⟩
    · obtain ⟨relaid, refilled, slots, moved⟩ := relay_inside relays (tracks_varies.nodes like)
        filled entered.right
      exact ⟨_, .table id refilled, .cons (.same _) (slots ▸ .prepend _ moved)⟩
    · rw [filter_enclosed] at filled ⊢
      have names : (((inner.filter (·.isNode)).filterMap slotName?).map (·.1)).Nodup :=
        distinct.sublist ((List.filter_sublist.filterMap _).map _)
      obtain ⟨relaid, refilled, moved⟩ := relay_entries stemming (perm.filter _)
        (kin_entries sound free) names filled (fun same => fresh.inner (Option.some.inj same)) entered
      exact ⟨_, .table id refilled, .cons (.same _) moved⟩

theorem relay_ending (relays : Relays trail) {ending another : Ending}
    (like : EndingLike Varies ending another) (fresh : Fresh place notes)
    (leaves : ending.Leaves trail place notes table) :
    ∃ others, another.Leaves trail place others table ∧ Rearranged false notes others := by
  cases like with
  | nothing => exact ⟨_, leaves, .refl _⟩
  | value like =>
    cases leaves with
    | value walked =>
      obtain ⟨others, left, rearranged⟩ := relays _ _ _ _ _ like fresh walked
      exact ⟨others, .value left, rearranged⟩
  | inherit based like =>
    cases leaves with
    | inherit stamp walked =>
      obtain ⟨others, left, rearranged⟩ := relays _ _ _ _ _ like fresh.left walked
      exact ⟨_, .inherit stamp left,
        rearranged.append (.cons (.inherit _ _ based.appeal.symm) .nil)⟩

theorem relay_script (relays : Relays trail) (stemming : Stemming false trail) {label : Label}
    (varies : Varies (.node label children) (.node label others)) (fresh : Fresh place notes)
    (leaves : (script label children).Leaves trail place notes table) :
    ∃ relaid, (script label others).Leaves trail place relaid table ∧
      Rearranged false notes relaid := by
  have sound := varies.1
  cases leaves with
  | mk played ended =>
    by_cases isTable : label = .table
    · subst isTable
      obtain ⟨_, same, alike⟩ := varies.node
      cases same
      cases (played : LeaveAll trail [] place _)
      obtain ⟨relaid, left, moved⟩ :=
        relay_table relays stemming sound (alike.imp_right fun shuffled => shuffled.2) fresh ended
      exact ⟨[] ++ relaid, .mk (.nil place) left, moved⟩
    · have like := script_like tracks_varies varies isTable sound.label_ne
      obtain ⟨early, left, moved⟩ := relay_acts relays _ like.acts fresh.left played
      obtain ⟨late, laid, shifted⟩ := relay_ending relays like.ending fresh.right ended
      exact ⟨_, .mk left laid, moved.append shifted⟩

theorem admits_varies {label : Label} (varies : Varies (.node label children) (.node label others))
    (fitting : Tree.admits label children) : Tree.admits label others := by
  obtain ⟨_, same, alike⟩ := varies.node
  cases same
  rcases alike with like | ⟨rfl, opener, closer, inner, sorted, rfl, rfl, perm, -⟩
  · rwa [admits_like tracks_varies varies like]
  · have entries : Tree.nodesAre Tree.entryLabels sorted = Tree.nodesAre Tree.entryLabels inner :=
      perm.symm.all_eq
    have enclosed (inner : List Tree) :
        Tree.nodesAre Tree.entryLabels (.leaf opener :: (inner ++ [.leaf closer])) =
          Tree.nodesAre Tree.entryLabels inner := by
      simp [Tree.nodesAre, Tree.isLeaf]
    simpa [Tree.admits, Label.fits, isEnclosed, Tree.admitsWithin, entries, enclosed] using fitting

theorem relays_walk (levels : Nat) : Relays (Leaves levels) := by
  induction levels with
  | zero =>
    intro tree other place notes table varies fresh leaves
    cases tree with
    | leaf token =>
      rw [varies.leaf]
      exact ⟨notes, leaves, .refl _⟩
    | node label children => exact leaves.elim
  | succ levels ih =>
    intro tree other place notes table varies fresh leaves
    cases tree with
    | leaf token =>
      rw [varies.leaf]
      exact ⟨notes, leaves, .refl _⟩
    | node label children =>
      obtain ⟨others, rfl, -⟩ := varies.node
      obtain ⟨relaid, left, moved⟩ :=
        relay_script ih (stemming_walk false levels) varies fresh leaves.2
      exact ⟨relaid, ⟨admits_varies varies leaves.1, left⟩, moved⟩

end Relaying

end Squirrel.Analysis
