import Squirrel.Proofs.Analysis.Parallel
import Squirrel.Proofs.Grammar.Recasting
import Squirrel.Proofs.Safety

/-! What an analysis finds does not depend on the layout of a program: on its trivia, on where its
tokens stand and on the commas in its lists. -/

namespace Squirrel

namespace Tree

mutual

def decEq : (tree other : Tree) → Decidable (tree = other)
  | .leaf token, .leaf another => decidable_of_iff (token = another) (by simp)
  | .leaf _, .node _ _ => isFalse (by simp)
  | .node _ _, .leaf _ => isFalse (by simp)
  | .node label children, .node another others =>
    have := decEqOf children others
    decidable_of_iff (label = another ∧ children = others) (by simp)

def decEqOf : (trees others : List Tree) → Decidable (trees = others)
  | [], [] => isTrue rfl
  | [], _ :: _ => isFalse (by simp)
  | _ :: _, [] => isFalse (by simp)
  | tree :: trees, other :: others =>
    have := decEq tree other
    have := decEqOf trees others
    decidable_of_iff (tree = other ∧ trees = others) (by simp)

end

instance : DecidableEq Tree := decEq

mutual

def pruned : Tree → Tree
  | .leaf token => .leaf token
  | .node label children => .node label (if label = .error then children else prunedOf children)

def prunedOf : List Tree → List Tree
  | [] => []
  | tree :: trees => if tree.isToken .comma then prunedOf trees else tree.pruned :: prunedOf trees

end

/-- What is left of a tree without layout: no trivia, no places and no commas. -/
def essence (tree : Tree) : Tree := tree.pruned.recast Token.bare

/-- The children that a path can take, in which commas do not count. -/
def branches : Tree → List Tree
  | .leaf _ => []
  | .node label children => if label = .error then children else unparted children

def at? (tree : Tree) : List Nat → Option Tree
  | [] => some tree
  | index :: path => tree.branches[index]?.bind (·.at? path)

variable {tree other : Tree} {label : Label} {children others : List Tree}

theorem at?_concat (tree : Tree) (path : List Nat) (index : Nat) :
    tree.at? (path ++ [index]) = (tree.at? path).bind (·.branches[index]?) := by
  induction path generalizing tree with
  | nil => simp [at?]
  | cons first path ih => simp [at?, ih, Option.bind_assoc]

theorem pruned_node (label : Label) (children : List Tree) : (node label children).pruned =
    .node label (if label = .error then children else prunedOf children) := rfl

theorem prunedOf_cons (tree : Tree) (trees : List Tree) : prunedOf (tree :: trees) =
    if tree.isToken .comma then prunedOf trees else tree.pruned :: prunedOf trees := rfl

theorem prunedOf_eq (trees : List Tree) : prunedOf trees = (unparted trees).map pruned := by
  induction trees with
  | nil => rfl
  | cons tree trees ih =>
    rw [prunedOf_cons, unparted, List.filter_cons, ← unparted, ih]
    cases tree.isToken .comma <;> rfl

theorem essence_leaf (token : Token) : (leaf token).essence = .leaf token.bare := rfl

theorem essence_node (sound : label ≠ .error) :
    (node label children).essence = .node label ((unparted children).map essence) := by
  rw [essence, pruned_node, if_neg sound, prunedOf_eq, recast_node, List.map_map]
  rfl

theorem essence_error :
    (node .error children).essence = .node .error (children.map (·.recast Token.bare)) := by
  rw [essence, pruned_node, if_pos rfl, recast_node]

theorem label_essence (tree : Tree) : tree.essence.label? = tree.label? := by
  cases tree <;> rfl

theorem unparted_of_partsLists (parted : partsLists label children)
    (plain : label.isListing = false) : unparted children = children := by
  rw [partsLists, plain, Bool.false_or] at parted
  exact List.filter_eq_self.mpr (List.all_eq_true.mp parted)

end Tree

namespace Analysis

open Squirrel.Tree (unparted)

structure WellMade (tree : Tree) : Prop where
  composed : tree.everywhere Tree.isComposed
  shaped : tree.isShaped
  parted : tree.everywhere Tree.partsLists

theorem WellMade.child {label : Label} {children : List Tree}
    (made : WellMade (.node label children)) : ∀ child ∈ children, WellMade child := by
  obtain ⟨composed, shaped, parted⟩ := made
  simp only [Tree.everywhere_node, Bool.and_eq_true, Tree.everywhereOf_iff] at composed parted
  exact fun child member => ⟨composed.2 child member, Tree.children_shaped shaped child member,
    parted.2 child member⟩

theorem wellMade_parse [NestingLimit] (source : String) : WellMade (parse source).tree :=
  ⟨composed_parse source, shaped_parse source, parted_parse source⟩

/-- Parts of two trees at the end of the same path that differ in their layout only. -/
structure Corresponds (first second tree other : Tree) : Prop where
  essence : other.essence = tree.essence
  path : ∃ path, first.at? path = some tree ∧ second.at? path = some other
  made : WellMade tree
  madeToo : WellMade other

variable {first second tree other : Tree} {label : Label} {children others : List Tree}

theorem Corresponds.unparted
    (like : Corresponds first second (.node label children) (.node label others))
    (sound : label ≠ .error) :
    List.Forall₂ (Corresponds first second) (unparted children) (unparted others) := by
  obtain ⟨essence, ⟨path, here, there⟩, made, madeToo⟩ := like
  rw [Tree.essence_node sound, Tree.essence_node sound, Tree.node.injEq] at essence
  have length : (Tree.unparted children).length = (Tree.unparted others).length := by
    simpa using congrArg List.length essence.2.symm
  refine List.forall₂_iff_get.mpr ⟨length, fun index inside insideToo => ?_⟩
  have leads {root : Tree} {below : List Tree} (found : root.at? path = some (.node label below))
      (bound : index < (Tree.unparted below).length) :
      root.at? (path ++ [index]) = some ((Tree.unparted below).get ⟨index, bound⟩) := by
    rw [Tree.at?_concat, found]
    simp [Tree.branches, sound, bound]
  refine ⟨?_, ⟨path ++ [index], leads here inside, leads there insideToo⟩,
    made.child _ (List.mem_filter.mp (List.get_mem ..)).1,
    madeToo.child _ (List.mem_filter.mp (List.get_mem ..)).1⟩
  have same := congrArg (·[index]?) essence.2
  simpa [inside, insideToo] using same

theorem tracks_corresponds (first second : Tree) : Tracks (Corresponds first second) where
  leaf {token tree} like := by
    have essence := like.essence
    rw [Tree.essence_leaf] at essence
    cases tree with
    | leaf another =>
      rw [Tree.essence_leaf, Tree.leaf.injEq] at essence
      have lexeme : another.bare.toLexeme = token.bare.toLexeme := congrArg _ essence
      exact ⟨another, rfl, lexeme⟩
    | node label children =>
      have labelled := congrArg Tree.label? essence
      rw [Tree.label_essence] at labelled
      cases labelled
  node {label children tree} like := by
    have labelled := congrArg Tree.label? like.essence
    rw [Tree.label_essence, Tree.label_essence] at labelled
    cases tree with
    | leaf another => cases labelled
    | node own others =>
      cases labelled
      refine ⟨others, rfl, fun plain => ?_, fun _ sound => like.unparted sound⟩
      have parted := like.made.parted
      have partedToo := like.madeToo.parted
      rw [Tree.everywhere_node, Bool.and_eq_true] at parted partedToo
      have below := like.unparted (by rintro rfl; cases plain)
      rwa [Tree.unparted_of_partsLists parted.1 plain,
        Tree.unparted_of_partsLists partedToo.1 plain] at below
  composed like := like.made.composed
  shaped like := like.made.shaped

theorem pairs_corresponds (first second : Tree) : Pairs (Corresponds first second) where
  toTracks := tracks_corresponds first second
  entries like := (tracks_corresponds first second).listed (like.unparted (by decide))
  skipped {children others} like := by
    have essence := like.essence
    rw [Tree.essence_error, Tree.essence_error, Tree.node.injEq] at essence
    have tokens := congrArg (fun trees => (Tree.tokensOf trees).map (·.toLexeme)) essence.2
    simpa [Function.comp_def, Token.bare] using tokens
  shapedToo like := like.madeToo.shaped

end Analysis

open Analysis

/-- Programs that differ in their layout only have the same faults in the same order, and each fault
stands at the same node of both. -/
theorem diagnostics_of_essence [NestingLimit] (known : List String) (source another : String)
    (same : (parse source).tree.essence = (parse another).tree.essence) :
    List.Forall₂ (fun one two : Diagnostic =>
        (one.kind, one.severity, one.message) = (two.kind, two.severity, two.message) ∧
        ∃ path node other, (parse source).tree.at? path = some node ∧
          (parse another).tree.at? path = some other ∧ one.span = node.span ∧
          two.span = other.span)
      (analyzeTree known (parse source).tree).diagnostics
      (analyzeTree known (parse another).tree).diagnostics := by
  have like : Corresponds (parse source).tree (parse another).tree (parse source).tree
      (parse another).tree :=
    ⟨same.symm, ⟨[], rfl, rfl⟩, wellMade_parse source, wellMade_parse another⟩
  refine (diagnostics_like (pairs_corresponds _ _) known like).imp fun one two alike => ?_
  cases alike with
  | name fault severity place =>
    obtain ⟨token, other, corresponds, rfl, rfl⟩ := place
    obtain ⟨path, here, there⟩ := corresponds.path
    exact ⟨rfl, path, _, _, here, there, rfl, rfl⟩
  | cycle name corresponds =>
    obtain ⟨path, here, there⟩ := corresponds.path
    exact ⟨rfl, path, _, _, here, there, rfl, rfl⟩

theorem diagnostics_of_essence_commas :
    (parse "[x, 1]").tree.essence = (parse "[\nx 1]").tree.essence ∧
    (analyzeTree [] (parse "[x, 1]").tree).diagnostics.length = 1 ∧
    List.Forall₂ (fun one two : Diagnostic =>
        (one.kind, one.severity, one.message) = (two.kind, two.severity, two.message) ∧
        ∃ path node other, (parse "[x, 1]").tree.at? path = some node ∧
          (parse "[\nx 1]").tree.at? path = some other ∧ one.span = node.span ∧
          two.span = other.span)
      (analyzeTree [] (parse "[x, 1]").tree).diagnostics
      (analyzeTree [] (parse "[\nx 1]").tree).diagnostics := by
  have same : (parse "[x, 1]").tree.essence =
      (parse "[\nx 1]").tree.essence := by decide +kernel
  exact ⟨same, by decide +kernel, diagnostics_of_essence [] _ _ same⟩

end Squirrel
