import Mathlib.Data.List.Forall2
import Squirrel.Proofs.Analysis.Script
import Squirrel.Proofs.Tree.Commas

/-! Trees that are alike have scripts that are alike. -/

namespace Squirrel.Analysis

open Squirrel.Tree (isComposed nodesAre unparted)

/-- A relation of well made trees that keeps labels and what tokens say. Commas may come and go, and
the children of a table or of a malformed node may differ. -/
structure Tracks (Like : Tree → Tree → Prop) : Prop where
  leaf : ∀ {token tree}, Like (.leaf token) tree → ∃ other, tree = .leaf other ∧
    other.toLexeme = token.toLexeme
  node : ∀ {label children tree}, Like (.node label children) tree → ∃ others,
    tree = .node label others ∧ (label.isListing = false → List.Forall₂ Like children others) ∧
      (label ≠ .table → label ≠ .error → List.Forall₂ Like (unparted children) (unparted others))
  composed : ∀ {tree other}, Like tree other → tree.everywhere isComposed
  shaped : ∀ {tree other}, Like tree other → tree.isShaped

theorem Tracks.of_children {Like : Tree → Tree → Prop}
    (leaf : ∀ {token tree}, Like (.leaf token) tree → tree = .leaf token)
    (node : ∀ {label children tree}, Like (.node label children) tree → ∃ others,
      tree = .node label others ∧ (label ≠ .table → List.Forall₂ Like children others))
    (composed : ∀ {tree other}, Like tree other → tree.everywhere isComposed)
    (shaped : ∀ {tree other}, Like tree other → tree.isShaped) : Tracks Like where
  leaf like := ⟨_, leaf like, rfl⟩
  node {label children tree} like := by
    obtain ⟨others, isNode, alike⟩ := node like
    refine ⟨others, isNode, fun plain => alike ?_, fun plain _ => ?_⟩
    · rintro rfl
      cases plain
    · refine List.rel_filter (fun tree other like => ?_) (alike plain)
      cases tree with
      | leaf token => rw [leaf like]
      | node label children =>
        obtain ⟨_, rfl, -⟩ := node like
        rfl
  composed := composed
  shaped := shaped

/-- The same act, with trees and tokens that are alike. -/
inductive ActLike (Like : Tree → Tree → Prop) : Act → Act → Prop
  | walk {tree other : Tree} (like : Like tree other) : ActLike Like (.walk tree) (.walk other)
  | refer {name other : Token} (named : Like (.leaf name) (.leaf other))
      (isCall isRead isWrite : Bool) :
    ActLike Like (.refer name isCall isRead isWrite) (.refer other isCall isRead isWrite)
  | declare (home : Home) {name other : Token} (named : Like (.leaf name) (.leaf other))
      (kind : DeclarationKind) :
    ActLike Like (.declare home name kind) (.declare home other kind)
  | excuse {name other : Token} (named : Like (.leaf name) (.leaf other)) :
    ActLike Like (.excuse name) (.excuse other)
  | bind (home : Home) {name other : Token} (named : Like (.leaf name) (.leaf other))
      (kind : DeclarationKind) {value? other? : Option Tree}
      (like : Option.Rel Like value? other?) :
    ActLike Like (.bind home name kind value?) (.bind home other kind other?)
  | within (enclosure : Enclosure) (later : Bool) {acts others : List Act}
      (like : List.Forall₂ (ActLike Like) acts others) :
    ActLike Like (.within enclosure later acts) (.within enclosure later others)

abbrev ActsLike (Like : Tree → Tree → Prop) : List Act → List Act → Prop :=
  List.Forall₂ (ActLike Like)

variable {Like : Tree → Tree → Prop} {label : Label} {tree other : Tree}
  {children others : List Tree}

section Shapes

theorem binding_children (shaped : tree.isShaped)
    (labelled : tree.label? = some .parameter ∨ tree.label? = some .declarator) :
    ∃ name rest, tree.children = .leaf name :: rest := by
  cases tree with
  | leaf token => rcases labelled with wrong | wrong <;> cases wrong
  | node own children =>
    have fit := (Bool.and_eq_true_iff.mp (Tree.admits_of_isShaped shaped)).1
    have fits : ∃ others, children.map (·.isNode) = false :: others := by
      rcases labelled with same | same
      all_goals
        cases same
        rcases Bool.or_eq_true_iff.mp fit with short | long
        · exact ⟨_, of_decide_eq_true short⟩
        · exact ⟨_, of_decide_eq_true long⟩
    obtain ⟨others, kinds⟩ := fits
    obtain ⟨first, rest, rfl, isToken, -⟩ := List.map_eq_cons_iff.mp kinds
    obtain ⟨name, rfl⟩ := Tree.leaf_of_isNode isToken
    exact ⟨name, rest, rfl⟩

theorem part_of_composed (composed : (Tree.node label children).everywhere isComposed)
    (accept : Label → Bool) (accepted : label.parts.all accept) :
    ∀ child ∈ children, child.label?.all accept := by
  simp only [Tree.everywhere_node, isComposed, Bool.and_eq_true] at composed
  intro child member
  have part := List.all_eq_true.mp composed.1.1 child member
  cases child with
  | leaf token => rfl
  | node inner below =>
    have listed : inner ∈ label.parts := by simpa [Tree.isLeaf, Tree.label?] using part
    exact List.all_eq_true.mp accepted inner listed

theorem part_labelled (composed : (Tree.node label children).everywhere isComposed)
    {labels : List Label} (parts : label.parts = labels) {child : Tree} (member : child ∈ children)
    (isNode : child.isNode) : ∃ own ∈ labels, child.label? = some own := by
  have part := part_of_composed composed (· ∈ labels) (by simp [parts]) child member
  cases child with
  | leaf token => cases isNode
  | node own inner => exact ⟨own, by simpa [Tree.label?] using part, rfl⟩

theorem inherit_parts {called list : Tree} (inner : Tree.admitsWithin .inheritCall [called, list]) :
    ∃ base body, list.subtrees = [base, body] ∧ body.hasLabel .table := by
  rw [Tree.admitsWithin] at inner
  generalize list.subtrees = nodes at inner ⊢
  rcases nodes with _ | ⟨base, _ | ⟨body, _ | _⟩⟩
  · cases inner
  · cases inner
  · exact ⟨base, body, rfl, inner⟩
  · cases inner

end Shapes

section Trees

variable (tracks : Tracks Like)

include tracks

theorem Tracks.alike (like : Like tree other) :
    (∃ token another, tree = .leaf token ∧ other = .leaf another ∧
      another.toLexeme = token.toLexeme) ∨
      ∃ label children others, tree = .node label children ∧ other = .node label others := by
  cases tree with
  | leaf token =>
    obtain ⟨another, isLeaf, same⟩ := tracks.leaf like
    exact .inl ⟨token, another, rfl, isLeaf, same⟩
  | node label children =>
    obtain ⟨others, isNode, -⟩ := tracks.node like
    exact .inr ⟨label, children, others, rfl, isNode⟩

theorem Tracks.isNode (like : Like tree other) : tree.isNode = other.isNode := by
  rcases tracks.alike like with ⟨_, _, rfl, rfl, -⟩ | ⟨_, _, _, rfl, rfl⟩ <;> rfl

theorem Tracks.of_leaf {token : Token} (like : Like tree (.leaf token)) :
    ∃ another, tree = .leaf another := by
  rcases tracks.alike like with ⟨another, _, rfl, -⟩ | ⟨_, _, _, -, same⟩
  · exact ⟨another, rfl⟩
  · cases same

variable {token another : Token}

theorem Tracks.lexeme (like : Like (.leaf token) (.leaf another)) :
    another.toLexeme = token.toLexeme := by
  obtain ⟨_, same, lexeme⟩ := tracks.leaf like
  cases same
  exact lexeme

theorem Tracks.kind (like : Like (.leaf token) (.leaf another)) : another.kind = token.kind :=
  congrArg Lexeme.kind (tracks.lexeme like)

theorem Tracks.text (like : Like (.leaf token) (.leaf another)) : another.text = token.text :=
  congrArg Lexeme.text (tracks.lexeme like)

theorem Tracks.inside (like : Like tree other) (plain : tree.label?.all (!·.isListing)) :
    List.Forall₂ Like tree.children other.children := by
  cases tree with
  | leaf token =>
    obtain ⟨another, rfl, -⟩ := tracks.leaf like
    exact .nil
  | node label children =>
    obtain ⟨others, rfl, same, -⟩ := tracks.node like
    exact same (by simpa [Tree.label?] using plain)

theorem Tracks.nodes (like : List.Forall₂ Like children others) :
    List.Forall₂ Like (children.filter (·.isNode)) (others.filter (·.isNode)) :=
  List.rel_filter (fun _ _ like => by simp [tracks.isNode like]) like

omit tracks in
theorem nodes_unparted (trees : List Tree) :
    (unparted trees).filter (·.isNode) = trees.filter (·.isNode) := by
  rw [unparted, List.filter_filter]
  refine List.filter_congr fun tree _ => ?_
  cases tree <;> simp [Tree.isNode, Tree.isLeaf, Tree.isToken, Tree.token?]

theorem Tracks.listed (like : List.Forall₂ Like (unparted children) (unparted others)) :
    List.Forall₂ Like (children.filter (·.isNode)) (others.filter (·.isNode)) := by
  have nodes := tracks.nodes like
  rwa [nodes_unparted, nodes_unparted] at nodes

theorem Tracks.subtrees (like : Like tree other) (plain : tree.label? ≠ some .table)
    (sound : tree.label? ≠ some .error) : List.Forall₂ Like tree.subtrees other.subtrees := by
  cases tree with
  | leaf token =>
    obtain ⟨another, rfl, -⟩ := tracks.leaf like
    exact .nil
  | node label children =>
    obtain ⟨others, rfl, -, same⟩ := tracks.node like
    exact tracks.listed (same (by simpa [Tree.label?] using plain) (by simpa [Tree.label?] using sound))

theorem Tracks.names (like : Like tree other) (isNames : tree.hasLabel .foreachVariables) :
    List.Forall₂ Like (unparted tree.children) (unparted other.children) := by
  cases tree with
  | leaf token => cases isNames
  | node label children =>
    obtain rfl : label = .foreachVariables := by simpa [Tree.hasLabel, Tree.label?] using isNames
    obtain ⟨others, rfl, -, same⟩ := tracks.node like
    exact same (by decide) (by decide)

theorem Tracks.leaves (like : Like (.node label children) other) (bare : label.parts = []) :
    ∀ child ∈ children, child.isLeaf := by
  have composed := tracks.composed like
  simp only [Tree.everywhere_node, isComposed, bare, Bool.and_eq_true] at composed
  intro child member
  cases child with
  | leaf token => rfl
  | node inner below => simpa [Tree.label?] using List.all_eq_true.mp composed.1.1 _ member

theorem Tracks.part (like : Like (.node label children) other) (accept : Label → Bool)
    (accepted : label.parts.all accept) : ∀ child ∈ children, child.label?.all accept :=
  part_of_composed (tracks.composed like) accept accepted

theorem Tracks.only (like : Like (.node label children) other) {own : Label}
    (parts : label.parts = [own]) :
    ∀ child ∈ children.filter (·.isNode), child.label? = some own := by
  intro child member
  obtain ⟨listed, isNode⟩ := List.mem_filter.mp member
  have part := tracks.part like (· = own) (by simp [parts]) child listed
  cases child with
  | leaf token => cases isNode
  | node inner below => simpa [Tree.label?] using part

theorem Tracks.binding (like : Like tree other)
    (labelled : tree.label? = some .parameter ∨ tree.label? = some .declarator) :
    ∃ name another rest others, tree.children = .leaf name :: rest ∧
      other.children = .leaf another :: others ∧ Like (.leaf name) (.leaf another) ∧
        List.Forall₂ Like rest others := by
  obtain ⟨name, rest, own⟩ := binding_children (tracks.shaped like) labelled
  have same := tracks.inside like (by rcases labelled with same | same <;> rw [same] <;> rfl)
  rw [own] at same
  obtain ⟨_, others, alike, more, isOther⟩ := List.forall₂_cons_left_iff.mp same
  obtain ⟨another, rfl, -⟩ := tracks.leaf alike
  exact ⟨name, another, rest, others, own, isOther, alike, more⟩

theorem Tracks.name_or (like : Like tree other) :
    (∃ name another, tree = .node .reference [.leaf name] ∧
      other = .node .reference [.leaf another] ∧ Like (.leaf name) (.leaf another)) ∨
    (tree.hasLabel .reference = false ∧ other.hasLabel .reference = false) := by
  cases tree with
  | leaf token =>
    obtain ⟨_, rfl, -⟩ := tracks.leaf like
    exact .inr ⟨rfl, rfl⟩
  | node label children =>
    have leaves := tracks.leaves like
    have fitting := Tree.admits_of_isShaped (tracks.shaped like)
    obtain ⟨others, rfl, alike, -⟩ := tracks.node like
    by_cases isName : label = .reference
    · subst isName
      simp only [Tree.admits, Label.fits, Bool.and_eq_true, decide_eq_true_eq] at fitting
      rcases alike rfl with _ | ⟨first, _ | ⟨_, _⟩⟩
      case cons.nil =>
        rcases tracks.alike first with ⟨_, _, rfl, rfl, -⟩ | ⟨_, _, _, rfl, -⟩
        · exact .inl ⟨_, _, rfl, rfl, first⟩
        · simp [Tree.isNode, Tree.isLeaf] at fitting
      all_goals simp at fitting
    · exact .inr (by simp [Tree.hasLabel, Tree.label?, isName])

theorem Tracks.root_or (like : Like tree other) :
    (∃ sign name sign' another, tree = .node .rootReference [sign, .leaf name] ∧
      other = .node .rootReference [sign', .leaf another] ∧ Like (.leaf name) (.leaf another)) ∨
    (tree.hasLabel .rootReference = false ∧ other.hasLabel .rootReference = false) := by
  cases tree with
  | leaf token =>
    obtain ⟨_, rfl, -⟩ := tracks.leaf like
    exact .inr ⟨rfl, rfl⟩
  | node label children =>
    have fitting := Tree.admits_of_isShaped (tracks.shaped like)
    obtain ⟨others, rfl, alike, -⟩ := tracks.node like
    by_cases isName : label = .rootReference
    · subst isName
      simp only [Tree.admits, Label.fits, Bool.and_eq_true, decide_eq_true_eq] at fitting
      rcases alike rfl with _ | ⟨first, _ | ⟨second, _ | ⟨_, _⟩⟩⟩
      case cons.cons.nil =>
        rcases tracks.alike second with ⟨_, _, rfl, rfl, -⟩ | ⟨_, _, _, rfl, -⟩
        · exact .inl ⟨_, _, _, _, rfl, rfl, second⟩
        · simp [Tree.isNode, Tree.isLeaf] at fitting
      all_goals simp at fitting
    · exact .inr (by simp [Tree.hasLabel, Tree.label?, isName])

end Trees

section Acts

theorem one_like {act another : Act} (like : ActLike Like act another) :
    ActsLike Like [act] [another] := .cons like .nil

theorem walks_like (like : List.Forall₂ Like children others) :
    ActsLike Like (children.map .walk) (others.map .walk) := by
  rw [ActsLike, List.forall₂_map_left_iff, List.forall₂_map_right_iff]
  exact like.imp fun _ _ => .walk

theorem body_like (tracks : Tracks Like) (like : Like tree other) :
    ActsLike Like (bodyActs tree) (bodyActs other) := by
  cases tree with
  | leaf token =>
    obtain ⟨_, rfl, -⟩ := tracks.leaf like
    exact one_like (.walk like)
  | node label children =>
    obtain ⟨others, rfl, same, -⟩ := tracks.node like
    by_cases isBlock : label = .block
    · subst isBlock
      exact walks_like (same rfl)
    · have plain (inner : List Tree) : bodyActs (.node label inner) = [.walk (.node label inner)] := by
        rw [bodyActs]
        intro _ isNode
        cases isNode
        exact isBlock rfl
      rw [plain, plain]
      exact one_like (.walk like)

theorem nested_like (tracks : Tracks Like) (like : Like tree other) :
    ActLike Like (nestedAct tree) (nestedAct other) :=
  .within _ false (body_like tracks like)

theorem value_like (like : List.Forall₂ Like children others) :
    Option.Rel Like (valueOf? children) (valueOf? others) := by
  rcases like with _ | ⟨first, _ | ⟨second, _ | ⟨third, rest⟩⟩⟩
  · exact .none
  · exact .none
  · exact .some second
  · exact .none

theorem value_map_like {act : Tree → Act} {value? other? : Option Tree}
    (acts : ∀ {tree other}, Like tree other → ActLike Like (act tree) (act other))
    (like : Option.Rel Like value? other?) :
    ActsLike Like (value?.toList.map act) (other?.toList.map act) := by
  cases like with
  | some like => exact one_like (acts like)
  | none => exact .nil

theorem parameter_like (tracks : Tracks Like) (like : Like tree other)
    (isParameter : tree.label? = some .parameter) :
    ActsLike Like (parameterActs tree) (parameterActs other) := by
  obtain ⟨name, another, rest, others, own, isOther, alike, more⟩ :=
    tracks.binding like (.inl isParameter)
  simp only [parameterActs, own, isOther, tracks.kind alike]
  refine List.rel_append ?_ (value_map_like .walk (value_like more))
  split
  · exact one_like (.declare .here alike .parameter)
  · exact .nil

abbrev HooksLike (Like : Tree → Tree → Prop) : Option Token → Option Token → Prop :=
  Option.Rel fun name another => Like (.leaf name) (.leaf another)

theorem function_like (tracks : Tracks Like) {body another : Tree} {hook? other? : Option Token}
    (like : Like tree other) (isList : tree.label? = some .parameters) (alike : Like body another)
    (hooks : HooksLike Like hook? other?) :
    ActLike Like (functionAct tree body hook?) (functionAct other another other?) := by
  refine .within _ true (List.rel_append ?_ (List.rel_append ?_ (body_like tracks alike)))
  · cases hooks with
    | none => exact .nil
    | some hook => exact one_like (.declare .here hook .hookParameter)
  · cases tree with
    | leaf token => cases isList
    | node label children =>
      cases isList
      have same : List.Forall₂ Like (Tree.node .parameters children).subtrees other.subtrees :=
        tracks.subtrees like (by simp [Tree.label?]) (by simp [Tree.label?])
      have both := (List.forall₂_and_left _ _).mpr ⟨tracks.only like rfl, same⟩
      exact List.rel_flatMap both fun one another alike => parameter_like tracks alike.2 alike.1

theorem variable_like (tracks : Tracks Like) (like : Like tree other)
    (isDeclarator : tree.label? = some .declarator) :
    ActLike Like (variableAct tree) (variableAct other) := by
  obtain ⟨name, another, rest, others, own, isOther, alike, more⟩ :=
    tracks.binding like (.inr isDeclarator)
  simp only [variableAct, own, isOther]
  exact .bind .here alike .localVariable (value_like more)

theorem functionName_like (tracks : Tracks Like) (like : Like tree other)
    (isName : tree.label? = some .functionName) (isLocal : Bool) :
    ActsLike Like (functionNameActs isLocal tree) (functionNameActs isLocal other) := by
  obtain ⟨children, rfl⟩ := Tree.node_of_label isName
  have fits := (Bool.and_eq_true_iff.mp (Tree.admits_of_isShaped (tracks.shaped like))).1
  obtain ⟨starts, -⟩ := Bool.and_eq_true_iff.mp fits
  obtain ⟨others, rfl, same, -⟩ := tracks.node like
  rcases same rfl with _ | ⟨first, rest⟩
  · cases starts
  · obtain ⟨name, rfl⟩ := Tree.leaf_of_isNode (by simpa using starts)
    obtain ⟨_, rfl, -⟩ := tracks.leaf first
    cases rest with
    | nil => exact one_like (.declare _ first _)
    | cons second rest =>
      simp only [functionNameActs, tracks.kind first]
      split
      · exact one_like (.refer first _ _ _)
      · exact .nil

theorem functionDeclaration_like (tracks : Tracks Like) (like : List.Forall₂ Like children others)
    (nodes : (children.filter (·.isNode)).map (·.label?) =
      [some .functionName, some .parameters, some .block]) :
    ActsLike Like (functionDeclarationActs children) (functionDeclarationActs others) := by
  have isLocal : children.head?.any (·.isToken .kwLocal) = others.head?.any (·.isToken .kwLocal) := by
    cases like with
    | nil => rfl
    | @cons tree other _ _ first _ =>
      rcases tracks.alike first with ⟨_, _, rfl, rfl, -⟩ | ⟨_, _, _, rfl, rfl⟩
      · simp [Tree.isToken, Tree.token?, tracks.kind first]
      · rfl
  have same := tracks.nodes like
  unfold functionDeclarationActs
  rcases own : children.filter (·.isNode) with _ | ⟨name, _ | ⟨list, _ | ⟨body, _ | ⟨more, rest⟩⟩⟩⟩
  all_goals rw [own] at nodes same
  all_goals simp only [List.map_cons, List.map_nil, List.cons.injEq, reduceCtorEq, and_false] at nodes
  obtain ⟨_, _, isName, two, isOther⟩ := List.forall₂_cons_left_iff.mp same
  obtain ⟨_, _, isList, one, rfl⟩ := List.forall₂_cons_left_iff.mp two
  obtain ⟨_, _, isBody, ends, rfl⟩ := List.forall₂_cons_left_iff.mp one
  rw [own, isOther, List.forall₂_nil_left_iff.mp ends, isLocal]
  exact List.rel_append (functionName_like tracks isName nodes.1 _)
    (one_like (function_like tracks isList nodes.2.1 isBody .none))

theorem foreachNames_unparted (trees : List Tree) :
    (unparted trees).flatMap foreachNameActs = trees.flatMap foreachNameActs := by
  induction trees with
  | nil => rfl
  | cons tree trees ih =>
    rw [unparted, List.filter_cons, List.flatMap_cons, ← ih]
    split
    · rfl
    · next isComma =>
      cases tree with
      | leaf token =>
        have kind : token.kind = .comma := by simpa [Tree.isToken, Tree.token?] using isComma
        rw [foreachNameActs, if_neg (by rw [kind]; decide)]
        rfl
      | node label children => exact absurd rfl isComma

theorem foreachNames_like (tracks : Tracks Like)
    (like : List.Forall₂ Like (unparted children) (unparted others)) :
    ActsLike Like (children.flatMap foreachNameActs) (others.flatMap foreachNameActs) := by
  rw [← foreachNames_unparted children, ← foreachNames_unparted others]
  refine List.rel_flatMap like fun tree other alike => ?_
  rcases tracks.alike alike with ⟨_, _, rfl, rfl, -⟩ | ⟨_, _, _, rfl, rfl⟩
  · rw [foreachNameActs, foreachNameActs, tracks.kind alike]
    split
    · exact one_like (.declare _ alike _)
    · exact .nil
  · exact .nil

theorem switchClause_like (tracks : Tracks Like) (like : Like tree other)
    (isClause : tree.label? = some .caseClause ∨ tree.label? = some .defaultClause) :
    ActsLike Like (switchClauseActs tree) (switchClauseActs other) := by
  cases tree with
  | leaf token => rcases isClause with isCase | isDefault <;> contradiction
  | node label children =>
    have composed := tracks.composed like
    simp only [Tree.everywhere_node, isComposed, Bool.and_eq_true] at composed
    have fits := (Bool.and_eq_true_iff.mp (Tree.admits_of_isShaped (tracks.shaped like))).1
    obtain ⟨others, rfl, same, -⟩ := tracks.node like
    rcases isClause with isCase | isDefault
    · cases isCase
      have kinds := of_decide_eq_true fits
      rcases same rfl with _ | ⟨_, _ | ⟨value, _ | ⟨_, _ | ⟨body, _ | ⟨_, _⟩⟩⟩⟩⟩
      case cons.cons.cons.cons.nil =>
        have isBody : Tree.hasLabel _ .caseBody := composed.1.2
        refine .cons (.walk value) (walks_like (tracks.inside body ?_))
        simp_all [Tree.hasLabel, Label.isListing]
      all_goals simp at kinds
    · cases isDefault
      have kinds := of_decide_eq_true fits
      have plain := tracks.part like (!·.isListing) rfl
      rcases same rfl with _ | ⟨_, _ | ⟨_, _ | ⟨body, _ | ⟨_, _⟩⟩⟩⟩
      case cons.cons.cons.nil => exact walks_like (tracks.inside body (plain _ (by simp)))
      all_goals simp at kinds

/-- An act on a tree that refers to the tree if it is a name, or else walks it. -/
def MeetsName (act : Tree → Act) : Prop :=
  ∀ tree, act tree = .walk tree ∨ ∃ name isCall isRead isWrite,
    tree = .node .reference [.leaf name] ∧ act tree = .refer name isCall isRead isWrite

theorem update_meets (operator : Token) : MeetsName (updateAct operator) := by
  intro tree
  unfold updateAct
  split
  · split
    · exact .inr ⟨_, _, _, _, rfl, rfl⟩
    · exact .inl rfl
  · exact .inl rfl

theorem target_meets (operator : Token) : MeetsName (targetAct operator) := by
  intro tree
  unfold targetAct
  split
  · exact .inr ⟨_, _, _, _, rfl, rfl⟩
  · exact .inl rfl

theorem callee_meets : MeetsName calleeAct := by
  intro tree
  unfold calleeAct
  split
  · exact .inr ⟨_, _, _, _, rfl, rfl⟩
  · exact .inl rfl

theorem MeetsName.walks {act : Tree → Act} (meets : MeetsName act)
    (noName : tree.hasLabel .reference = false) : act tree = .walk tree := by
  rcases meets tree with walks | ⟨_, _, _, _, rfl, -⟩
  · exact walks
  · cases noName

theorem update_like (tracks : Tracks Like) {operator another : Token} (like : Like tree other)
    (same : another.kind = operator.kind) :
    ActLike Like (updateAct operator tree) (updateAct another other) := by
  rcases tracks.name_or like with ⟨name, _, rfl, rfl, named⟩ | ⟨noName, noOther⟩
  · simp only [updateAct, same]
    split
    · exact .refer named _ _ _
    · exact .walk like
  · rw [(update_meets operator).walks noName, (update_meets another).walks noOther]
    exact .walk like

theorem target_like (tracks : Tracks Like) {operator another : Token} (like : Like tree other)
    (same : another.kind = operator.kind) :
    ActLike Like (targetAct operator tree) (targetAct another other) := by
  rcases tracks.name_or like with ⟨name, _, rfl, rfl, named⟩ | ⟨noName, noOther⟩
  · simp only [targetAct, same]
    exact .refer named _ _ _
  · rw [(target_meets operator).walks noName, (target_meets another).walks noOther]
    exact .walk like

theorem callee_like (tracks : Tracks Like) (like : Like tree other) :
    ActLike Like (calleeAct tree) (calleeAct other) := by
  rcases tracks.name_or like with ⟨name, _, rfl, rfl, named⟩ | ⟨noName, noOther⟩
  · exact .refer named _ _ _
  · rw [callee_meets.walks noName, callee_meets.walks noOther]
    exact .walk like

theorem newSlot_like (tracks : Tracks Like) {value another : Tree} (like : Like tree other)
    (given : Like value another) : ActsLike Like (newSlotActs tree value) (newSlotActs other another) := by
  rcases tracks.name_or like with ⟨name, _, rfl, rfl, named⟩ | ⟨noName, noOther⟩
  · exact one_like (.bind _ named _ (.some given))
  rcases tracks.root_or like with ⟨_, name, _, _, rfl, rfl, named⟩ | ⟨noRoot, noOtherRoot⟩
  · exact one_like (.bind _ named _ (.some given))
  · have walks {target value : Tree} (noName : target.hasLabel .reference = false)
        (noRoot : target.hasLabel .rootReference = false) :
        newSlotActs target value = [.walk value, .walk target] := by
      unfold newSlotActs
      split
      · cases noName
      · cases noRoot
      · rfl
    rw [walks noName noRoot, walks noOther noOtherRoot]
    exact .cons (.walk given) (one_like (.walk like))

inductive FillingLike (Like : Tree → Tree → Prop) : Filling → Filling → Prop
  | acts {own others : List Act} (like : ActsLike Like own others) :
    FillingLike Like (.acts own) (.acts others)
  | value {tree other : Tree} (like : Like tree other) :
    FillingLike Like (.value tree) (.value other)
  | fails : FillingLike Like (.acts [.fail .table]) (.acts [.fail .table])

inductive EndingLike (Like : Tree → Tree → Prop) : Ending → Ending → Prop
  | nothing : EndingLike Like .nothing .nothing
  | value {tree other : Tree} (like : Like tree other) : EndingLike Like (.value tree) (.value other)
  | inherit {base body otherBase otherBody : Tree} (based : Like base otherBase)
      (like : Like body otherBody) :
    EndingLike Like (.inherit base body) (.inherit otherBase otherBody)

def SlotLike (Like : Tree → Tree → Prop) (slot other : String × Span) : Prop :=
  other.1 = slot.1 ∧ ∃ key another : Token, Like (.leaf key) (.leaf another) ∧
    slot.2 = key.span ∧ other.2 = another.span

theorem slotName_like (tracks : Tracks Like) (like : Like tree other) :
    Option.Rel (SlotLike Like) (slotName? tree) (slotName? other) := by
  cases tree with
  | leaf token =>
    obtain ⟨_, rfl, -⟩ := tracks.leaf like
    exact .none
  | node label children =>
    obtain ⟨others, rfl, alike, -⟩ := tracks.node like
    cases label
    case tableSlot | tableQuoted =>
      rcases alike rfl with _ | ⟨first, _⟩
      · exact .none
      · rcases tracks.alike first with ⟨_, _, rfl, rfl, -⟩ | ⟨_, _, _, rfl, rfl⟩
        · refine .some ⟨?_, _, _, first, rfl, rfl⟩
          simp only [tracks.text first]
        · exact .none
    case tableMethod =>
      rcases alike rfl with _ | ⟨_, _ | ⟨second, _⟩⟩
      · exact .none
      · exact .none
      · rcases tracks.alike second with ⟨_, _, rfl, rfl, -⟩ | ⟨_, _, _, rfl, rfl⟩
        · exact .some ⟨tracks.text second, _, _, second, rfl, rfl⟩
        · exact .none
    all_goals exact .none

theorem filling_like (tracks : Tracks Like) (like : Like tree other) :
    FillingLike Like (filling tree) (filling other) := by
  cases tree with
  | leaf token =>
    obtain ⟨_, rfl, -⟩ := tracks.leaf like
    exact .fails
  | node label children =>
    have fitting := Tree.admits_of_isShaped (tracks.shaped like)
    obtain ⟨others, rfl, alike, -⟩ := tracks.node like
    cases label
    case tableSlot | tableQuoted =>
      rcases alike rfl with _ | ⟨_, _ | ⟨_, _ | ⟨value, _ | _⟩⟩⟩
      case cons.cons.cons.nil => exact .value value
      all_goals exact .fails
    case tableMethod =>
      rcases alike rfl with _ | ⟨_, _ | ⟨_, _ | ⟨list, _ | ⟨body, _ | _⟩⟩⟩⟩
      case cons.cons.cons.cons.nil =>
        have isList := (Bool.and_eq_true_iff.mp fitting).2
        exact .acts (one_like (function_like tracks list
          (by simpa [Tree.admitsWithin, Tree.hasLabel] using isList) body .none))
      all_goals exact .fails
    case tableComputed =>
      rcases alike rfl with _ | ⟨_, _ | ⟨key, _ | ⟨_, _ | ⟨_, _ | ⟨value, _ | _⟩⟩⟩⟩⟩
      case cons.cons.cons.cons.cons.nil => exact .acts (.cons (.walk key) (one_like (.walk value)))
      all_goals exact .fails
    case error => exact .acts .nil
    all_goals exact .fails

theorem member_like (tracks : Tracks Like) (like : Like tree other) :
    ActsLike Like
      (if tree.hasLabel .reference ∧ tree.identifier? = some stateTable then [] else [.walk tree])
      (if other.hasLabel .reference ∧ other.identifier? = some stateTable then []
        else [.walk other]) := by
  rcases tracks.name_or like with ⟨name, _, rfl, rfl, named⟩ | ⟨noName, noOther⟩
  · have isName (token : Token) : (Tree.node .reference [.leaf token]).hasLabel .reference := rfl
    simp only [isName, Tree.identifier?, tracks.text named, true_and]
    by_cases isState : some name.text = some stateTable
    · rw [if_pos isState, if_pos isState]
      exact .nil
    · rw [if_neg isState, if_neg isState]
      exact one_like (.walk like)
  · simp only [noName, noOther, Bool.false_eq_true, false_and, if_false]
    exact one_like (.walk like)

theorem hookName_like (tracks : Tracks Like) (like : Like tree other)
    (isList : tree.label? = some .parameters) :
    HooksLike Like ((tree.subtrees.head?.bind (·.children.head?)).bind (·.token?))
      ((other.subtrees.head?.bind (·.children.head?)).bind (·.token?)) := by
  obtain ⟨children, rfl⟩ := Tree.node_of_label isList
  have plain := tracks.part like (!·.isListing) rfl
  have nodes := tracks.subtrees like (by simp [Tree.label?]) (by simp [Tree.label?])
  cases first : (Tree.node .parameters children).subtrees with
  | nil =>
    rw [first, List.forall₂_nil_left_iff] at nodes
    rw [nodes]
    exact .none
  | cons parameter rest =>
    have member : parameter ∈ (Tree.node .parameters children).subtrees :=
      first ▸ List.mem_cons_self
    rw [first] at nodes
    obtain ⟨another, _, same, -, isOther⟩ := List.forall₂_cons_left_iff.mp nodes
    have inside := tracks.inside same (plain _ (List.mem_filter.mp member).1)
    rw [isOther, List.head?_cons, List.head?_cons, Option.bind_some, Option.bind_some]
    cases own : parameter.children with
    | nil =>
      rw [own, List.forall₂_nil_left_iff] at inside
      rw [inside]
      exact .none
    | cons name others =>
      rw [own] at inside
      obtain ⟨last, _, alike, -, isLast⟩ := List.forall₂_cons_left_iff.mp inside
      rw [isLast, List.head?_cons, List.head?_cons, Option.bind_some, Option.bind_some]
      rcases tracks.alike alike with ⟨_, _, rfl, rfl, -⟩ | ⟨_, _, _, rfl, rfl⟩
      · exact .some alike
      · exact .none

theorem hook_shape (shaped : (Tree.node .hookWrapper children).isShaped) :
    ∃ sign list keyword inner body,
      children = [sign, list, .node .functionLiteral [keyword, inner, body]] ∧
        inner.label? = some .parameters := by
  have fitting := Tree.admits_of_isShaped shaped
  simp only [Tree.admits, Label.fits, Bool.and_eq_true, decide_eq_true_eq] at fitting
  obtain ⟨kinds, within⟩ := fitting
  rcases children with _ | ⟨sign, _ | ⟨list, _ | ⟨function, _ | ⟨_, _⟩⟩⟩⟩
  case cons.cons.cons.nil =>
    obtain ⟨isFunction, -⟩ := Bool.and_eq_true_iff.mp within
    cases function with
    | leaf token => cases isFunction
    | node label below =>
      obtain rfl : label = .functionLiteral := by
        simpa [Tree.hasLabel, Tree.label?] using isFunction
      have own : Tree.admits .functionLiteral below :=
        Tree.admits_of_isShaped (Tree.children_shaped shaped _ (by simp [Tree.children]))
      simp only [Tree.admits, Label.fits, Bool.and_eq_true, decide_eq_true_eq] at own
      obtain ⟨ownKinds, ownWithin⟩ := own
      rcases below with _ | ⟨keyword, _ | ⟨inner, _ | ⟨body, _ | ⟨_, _⟩⟩⟩⟩
      case cons.cons.cons.nil =>
        exact ⟨sign, list, keyword, inner, body, rfl,
          by simpa [Tree.admitsWithin, Tree.hasLabel] using ownWithin⟩
      all_goals simp at ownKinds
  all_goals simp at kinds

theorem hook_named {sign list function : Tree}
    (shaped : (Tree.node .hookWrapper [sign, list, function]).isShaped) :
    ∃ hook, (list.subtrees.head?.bind (·.children.head?)).bind (·.token?) = some hook := by
  have fitting := Tree.admits_of_isShaped shaped
  simp only [Tree.admits, Bool.and_eq_true, Tree.admitsWithin] at fitting
  obtain ⟨-, -, named⟩ := fitting
  generalize list.subtrees.head? = parameter? at named
  rcases parameter? with _ | parameter
  · cases named
  · rw [Option.any_some] at named
    rw [Option.bind_some]
    generalize parameter.children.head? = name? at named
    rcases name? with _ | (hook | _)
    · cases named
    · exact ⟨hook, rfl⟩
    · cases named

theorem hook_like (tracks : Tracks Like)
    (like : Like (.node .hookWrapper children) (.node .hookWrapper others)) :
    ActsLike Like (plainActs .hookWrapper children) (plainActs .hookWrapper others) := by
  obtain ⟨_, same, alike, -⟩ := tracks.node like
  cases same
  have composed := tracks.composed like
  simp only [Tree.everywhere_node, isComposed, Bool.and_eq_true] at composed
  obtain ⟨sign, list, keyword, inner, body, rfl, isInner⟩ := hook_shape (tracks.shaped like)
  have isList : list.label? = some .parameters := by
    simpa [Tree.areOrdered, Tree.hasLabel] using composed.1.2
  rcases alike rfl with _ | ⟨_, _ | ⟨listed, _ | ⟨function, _ | _⟩⟩⟩
  obtain ⟨_, rfl, parts, -⟩ := tracks.node function
  rcases parts rfl with _ | ⟨_, _ | ⟨alikeInner, _ | ⟨alikeBody, _ | _⟩⟩⟩
  have hooks := hookName_like tracks listed isList
  obtain ⟨own, named⟩ := hook_named (tracks.shaped like)
  simp only [plainActs]
  generalize (list.subtrees.head?.bind _).bind _ = hook? at hooks named ⊢
  generalize (Option.bind (Option.bind _ _) _ : Option Token) = other? at hooks ⊢
  cases hooks with
  | some hook => exact one_like (function_like tracks alikeInner isInner alikeBody (.some hook))
  | none => cases named

theorem clauses_of_fits {first second subject : Tree}
    (fitting : Tree.admits .switchStatement (first :: second :: subject :: children)) :
    ∀ child ∈ children.filter (·.isNode),
      child.label? = some .caseClause ∨ child.label? = some .defaultClause := by
  simp only [Tree.admits, Label.fits, Bool.and_eq_true, decide_eq_true_eq] at fitting
  obtain ⟨⟨kinds, -⟩, within⟩ := fitting
  intro child member
  obtain ⟨inside, isNode⟩ := List.mem_filter.mp member
  cases children with
  | nil => cases inside
  | cons opener clauses =>
    have isToken : opener.isNode = false := by simp_all
    rcases List.mem_cons.mp inside with rfl | later
    · rw [isToken] at isNode
      cases isNode
    · have listed := List.all_eq_true.mp within child later
      cases child with
      | leaf token => cases isNode
      | node label inner => simpa [Tree.isLeaf, Tree.label?] using listed

theorem plain_like (tracks : Tracks Like) (like : Like (.node label children) (.node label others))
    (plain : label ≠ .table) (sound : label ≠ .error) :
    ActsLike Like (plainActs label children) (plainActs label others) := by
  by_cases isHook : label = .hookWrapper
  · subst isHook
    exact hook_like tracks like
  obtain ⟨alike, listed⟩ : (label.isListing = false → List.Forall₂ Like children others) ∧
      List.Forall₂ Like (unparted children) (unparted others) := by
    obtain ⟨_, same, alike, listed⟩ := tracks.node like
    cases same
    exact ⟨alike, listed plain sound⟩
  have fitting := Tree.admits_of_isShaped (tracks.shaped like)
  simp only [Tree.admits, Bool.and_eq_true] at fitting
  have composed := tracks.composed like
  simp only [Tree.everywhere_node, isComposed, Bool.and_eq_true] at composed
  unfold plainActs
  split
  · exact one_like (.within _ _ (walks_like (alike rfl)))
  · exact one_like (.within _ _ (walks_like (alike rfl)))
  · exact absurd rfl sound
  · have both := (List.forall₂_and_left _ _).mpr ⟨tracks.only like rfl, tracks.listed listed⟩
    exact List.rel_map (fun _ _ alike => variable_like tracks alike.2 alike.1) both
  · rcases alike rfl with _ | ⟨_, _ | ⟨name, _ | ⟨_, _ | ⟨value, _⟩⟩⟩⟩
    obtain ⟨_, rfl, -⟩ := tracks.leaf name
    exact .cons (.walk value) (one_like (.declare _ name _))
  · exact functionDeclaration_like tracks (alike rfl) (by simpa [Tree.admitsWithin] using fitting.2)
  · rcases alike rfl with _ | ⟨_, _ | ⟨_, _ | ⟨condition, _ | ⟨_, _ | ⟨first, rest⟩⟩⟩⟩⟩
    exact .cons (.walk condition) (.cons (nested_like tracks first)
      (value_map_like (nested_like tracks) (value_like rest)))
  · rcases alike rfl with _ | ⟨_, _ | ⟨_, _ | ⟨condition, _ | ⟨_, _ | ⟨body, _ | _⟩⟩⟩⟩⟩
    exact .cons (.walk condition) (one_like (nested_like tracks body))
  · rcases alike rfl with _ | ⟨_, _ | ⟨body, _ | ⟨_, _ | ⟨_, _ | ⟨condition, _⟩⟩⟩⟩⟩
    exact .cons (nested_like tracks body) (one_like (.walk condition))
  · have heads := composed.1.2
    rcases alike rfl with _ | ⟨_, _ | ⟨_, _ | ⟨init, _ | ⟨_, _ | ⟨condition, _ | ⟨_, _ | ⟨step, _ |
      ⟨_, _ | ⟨body, _ | _⟩⟩⟩⟩⟩⟩⟩⟩⟩
    simp only [Tree.areOrdered, Tree.hasLabel, Bool.and_eq_true, decide_eq_true_eq] at heads
    refine one_like (.within _ _ (List.rel_append ?_ (List.rel_append ?_ (List.rel_append ?_
      (one_like (nested_like tracks body))))))
    · exact walks_like (tracks.inside init (by rw [heads.1]; rfl))
    · exact walks_like (tracks.inside condition (by rw [heads.2.1]; rfl))
    · exact walks_like (tracks.inside step (by rw [heads.2.2]; rfl))
  · rcases alike rfl with _ | ⟨_, _ | ⟨_, _ | ⟨names, _ | ⟨_, _ | ⟨container, _ | ⟨_, _ | ⟨body, _ |
      _⟩⟩⟩⟩⟩⟩⟩
    have isNames : Tree.hasLabel _ .foreachVariables := composed.1.2
    exact .cons (.walk container) (one_like (.within _ _ (List.rel_append
      (foreachNames_like tracks (tracks.names names isNames)) (one_like (nested_like tracks body)))))
  · have clauses := clauses_of_fits (Tree.admits_of_isShaped (tracks.shaped like))
    rcases alike rfl with _ | ⟨_, _ | ⟨_, _ | ⟨subject, rest⟩⟩⟩
    have both := (List.forall₂_and_left _ _).mpr ⟨clauses, tracks.nodes rest⟩
    exact .cons (.walk subject) (one_like (.within _ _ (List.rel_flatMap both
      fun _ _ alike => switchClause_like tracks alike.2 alike.1)))
  · rcases alike rfl with _ | ⟨_, _ | ⟨body, _ | ⟨_, _ | ⟨_, _ | ⟨name, _ | ⟨_, _ | ⟨handler, _ |
      _⟩⟩⟩⟩⟩⟩⟩
    obtain ⟨_, rfl, -⟩ := tracks.leaf name
    exact .cons (nested_like tracks body) (one_like (.within _ _ (.cons (.excuse name)
      (one_like (nested_like tracks handler)))))
  · rcases alike rfl with _ | ⟨name, _⟩
    obtain ⟨_, rfl, -⟩ := tracks.leaf name
    exact one_like (.refer name _ _ _)
  · rcases alike rfl with _ | ⟨operator, _ | ⟨operand, _ | _⟩⟩
    obtain ⟨_, rfl, -⟩ := tracks.leaf operator
    exact one_like (update_like tracks operand (tracks.kind operator))
  · rcases alike rfl with _ | ⟨operand, _ | ⟨operator, _ | _⟩⟩
    obtain ⟨_, rfl, -⟩ := tracks.leaf operator
    exact one_like (update_like tracks operand (tracks.kind operator))
  · rcases alike rfl with _ | ⟨target, _ | ⟨operator, _ | ⟨value, _ | _⟩⟩⟩
    obtain ⟨_, rfl, -⟩ := tracks.leaf operator
    exact .cons (.walk value) (one_like (target_like tracks target (tracks.kind operator)))
  · rcases alike rfl with _ | ⟨target, _ | ⟨_, _ | ⟨value, _ | _⟩⟩⟩
    exact newSlot_like tracks target value
  · rcases alike rfl with _ | ⟨object, _⟩
    exact member_like tracks object
  · rcases alike rfl with _ | ⟨called, _ | ⟨list, _ | _⟩⟩
    exact .cons (callee_like tracks called) (one_like (.walk list))
  · rcases alike rfl with _ | ⟨_, _ | ⟨list, _ | ⟨body, _ | _⟩⟩⟩
    exact one_like (function_like tracks list
      (by simpa [Tree.admitsWithin, Tree.hasLabel] using fitting.2) body .none)
  · rcases alike rfl with _ | ⟨_, _ | ⟨list, _ | ⟨body, _ | _⟩⟩⟩
    exact one_like (function_like tracks list
      (by simpa [Tree.admitsWithin, Tree.hasLabel] using fitting.2) body .none)
  · exact absurd rfl isHook
  case h_31 =>
    -- The other children are not taken apart either, since both have the same shape.
    split
    case h_31 => exact walks_like (tracks.listed listed)
    case h_23 => exact absurd rfl isHook
    case h_3 => exact absurd rfl sound
    case h_4 => solve_by_elim
    all_goals
      exfalso
      have alike := alike rfl
      repeat cases ‹List.Forall₂ Like _ (_ :: _)›
      try cases ‹List.Forall₂ Like _ []›
      try obtain ⟨_, rfl⟩ := tracks.of_leaf ‹Like _ (.leaf _)›
      solve_by_elim
  all_goals exact .nil

structure ScriptLike (Like : Tree → Tree → Prop) (one another : Script) : Prop where
  acts : ActsLike Like one.acts another.acts
  ending : EndingLike Like one.ending another.ending

theorem inherit_like (tracks : Tracks Like) {called another list others : Tree}
    (alike : Like called another) (like : Like list others) (isList : list.label? = some .arguments)
    (inner : Tree.admitsWithin .inheritCall [called, list]) :
    ScriptLike Like (script .inheritCall [called, list]) (script .inheritCall [another, others]) := by
  have parts := tracks.subtrees like (by rw [isList]; decide) (by rw [isList]; decide)
  have callee := callee_like tracks alike
  obtain ⟨_, _, both, -⟩ := inherit_parts inner
  simp only [script, both]
  rw [both] at parts
  generalize others.subtrees = rest at parts ⊢
  rcases parts with _ | ⟨base, _ | ⟨body, _ | _⟩⟩
  exact ⟨.cons callee (one_like (.walk base)), .inherit base body⟩

theorem script_like (tracks : Tracks Like) (like : Like (.node label children) (.node label others))
    (plain : label ≠ .table) (sound : label ≠ .error) :
    ScriptLike Like (script label children) (script label others) := by
  have alike : label.isListing = false → List.Forall₂ Like children others := by
    obtain ⟨_, same, alike, -⟩ := tracks.node like
    cases same
    exact alike
  have composed := tracks.composed like
  simp only [Tree.everywhere_node, isComposed, Bool.and_eq_true] at composed
  have inner := (Bool.and_eq_true_iff.mp (Tree.admits_of_isShaped (tracks.shaped like))).2
  have acts : ScriptLike Like ⟨plainActs label children, .nothing⟩ ⟨plainActs label others, .nothing⟩ :=
    ⟨plain_like tracks like plain sound, .nothing⟩
  rw [script.eq_def label children]
  split
  · rcases alike rfl with _ | ⟨_, _ | ⟨inner, _ | ⟨_, _ | _⟩⟩⟩
    exact ⟨.nil, .value inner⟩
  · exact absurd rfl plain
  · rcases alike rfl with _ | ⟨called, _ | ⟨list, _ | _⟩⟩
    have isList : Tree.hasLabel _ .arguments := composed.1.2
    have inherits := inherit_like tracks called list (by simpa [Tree.hasLabel] using isList) inner
    simpa only [script] using inherits
  · rw [script.eq_def label others]
    split
    case h_4 => exact acts
    case h_2 => exact absurd rfl plain
    all_goals
      exfalso
      have alike := alike rfl
      repeat cases ‹List.Forall₂ Like _ (_ :: _)›
      try cases ‹List.Forall₂ Like _ []›
      solve_by_elim

end Acts

end Squirrel.Analysis
