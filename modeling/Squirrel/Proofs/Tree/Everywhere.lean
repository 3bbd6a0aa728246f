import Squirrel.Tree.Basic

/-! Checks that pass at every node of a tree. -/

namespace Squirrel

namespace Tree

@[elab_as_elim] theorem byChildren {motive : Tree → Prop} (leaf : ∀ token, motive (.leaf token))
    (node : ∀ label children, (∀ child ∈ children, motive child) → motive (.node label children)) :
    ∀ tree, motive tree := by
  intro tree
  cases tree with
  | leaf token => exact leaf token
  | node label children => exact node label children fun child _ => byChildren leaf node child

mutual

def everywhere (check : Label → List Tree → Bool) : Tree → Bool
  | .leaf _ => true
  | .node label children => check label children && everywhereOf check children

def everywhereOf (check : Label → List Tree → Bool) : List Tree → Bool
  | [] => true
  | tree :: trees => tree.everywhere check && everywhereOf check trees

end

variable {check : Label → List Tree → Bool}

@[simp] theorem everywhere_leaf (token : Token) : (leaf token).everywhere check := by
  rw [everywhere]

@[simp] theorem everywhere_node (label : Label) (children : List Tree) :
    (node label children).everywhere check = (check label children && everywhereOf check children) := by
  rw [everywhere]

@[simp] theorem everywhereOf_nil : everywhereOf check [] := by rw [everywhereOf]

@[simp] theorem everywhereOf_cons (tree : Tree) (trees : List Tree) :
    everywhereOf check (tree :: trees) = (tree.everywhere check && everywhereOf check trees) := by
  rw [everywhereOf]

@[simp] theorem everywhereOf_append (first second : List Tree) :
    everywhereOf check (first ++ second) = (everywhereOf check first && everywhereOf check second) := by
  induction first with
  | nil => simp
  | cons tree first ih => simp [ih, Bool.and_assoc]

@[simp] theorem everywhereOf_leaves (tokens : List Token) :
    everywhereOf check (tokens.map .leaf) := by
  induction tokens with
  | nil => simp
  | cons token tokens ih => simp [ih]

theorem everywhereOf_iff (trees : List Tree) :
    everywhereOf check trees ↔ ∀ tree ∈ trees, tree.everywhere check := by
  induction trees with
  | nil => simp
  | cons tree trees ih => simp [ih]

variable {other : Label → List Tree → Bool}

theorem everywhere_mono {tree : Tree}
    (weaker : ∀ label children, check label children → other label children)
    (passes : tree.everywhere check) : tree.everywhere other := by
  induction tree using byChildren with
  | leaf token => simp
  | node label children ih =>
    rw [everywhere_node, Bool.and_eq_true, everywhereOf_iff] at passes ⊢
    exact ⟨weaker label children passes.1, fun child member => ih child member (passes.2 child member)⟩

theorem everywhere_both {tree : Tree} (one : tree.everywhere check)
    (another : tree.everywhere other) :
    tree.everywhere (fun label children => check label children && other label children) := by
  induction tree using byChildren with
  | leaf token => simp
  | node label children ih =>
    rw [everywhere_node, Bool.and_eq_true, everywhereOf_iff] at one another ⊢
    exact ⟨by rw [one.1, another.1]; rfl,
      fun child member => ih child member (one.2 child member) (another.2 child member)⟩

end Tree

end Squirrel
