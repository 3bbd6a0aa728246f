import Squirrel.Proofs.Grammar.Derivation

/-! Where the error nodes of a tree stand, and what is reported there. -/

namespace Squirrel

/-- The tokens inside an error node, and those after it. -/
structure ErrorSite where
  inside : List Token
  after : List Token

def ErrorSite.reach (site : ErrorSite) : List Token := site.inside ++ site.after.take 1

def Diagnostic.SitsOn (diagnostic : Diagnostic) (tokens : List Token) : Prop :=
  ∃ token ∈ tokens, diagnostic.span = token.span

namespace Tree

mutual

def errorSites : Tree → List Token → List ErrorSite
  | .leaf _, _ => []
  | .node label children, after =>
    (if label = .error then [⟨tokensOf children, after⟩] else []) ++ errorSitesOf children after

def errorSitesOf : List Tree → List Token → List ErrorSite
  | [], _ => []
  | tree :: trees, after => tree.errorSites (tokensOf trees ++ after) ++ errorSitesOf trees after

end

variable (after : List Token)

@[simp] theorem errorSites_leaf (token : Token) : (leaf token).errorSites after = [] := by
  rw [errorSites]

theorem errorSites_node (label : Label) (children : List Tree) :
    (node label children).errorSites after =
      (if label = .error then [⟨tokensOf children, after⟩] else []) ++
        errorSitesOf children after := by rw [errorSites]

@[simp] theorem errorSitesOf_nil : errorSitesOf [] after = [] := by rw [errorSitesOf]

@[simp] theorem errorSitesOf_cons (tree : Tree) (trees : List Tree) :
    errorSitesOf (tree :: trees) after =
      tree.errorSites (tokensOf trees ++ after) ++ errorSitesOf trees after := by
  rw [errorSitesOf]

@[simp] theorem errorSitesOf_append (first second : List Tree) :
    errorSitesOf (first ++ second) after =
      errorSitesOf first (tokensOf second ++ after) ++ errorSitesOf second after := by
  induction first with
  | nil => simp
  | cons tree first ih => simp [ih]

@[simp] theorem errorSitesOf_leaves (tokens : List Token) :
    errorSitesOf (tokens.map .leaf) after = [] := by
  induction tokens with
  | nil => simp
  | cons token tokens ih => simp [ih]

mutual

theorem length_errorSites : (tree : Tree) → (after : List Token) →
    (tree.errorSites after).length = tree.errors
  | .leaf token, after => by simp
  | .node label children, after => by
    rw [errorSites_node, List.length_append, length_errorSitesOf children after, errors_node]
    split <;> rfl

theorem length_errorSitesOf : (trees : List Tree) → (after : List Token) →
    (errorSitesOf trees after).length = errorsOf trees
  | [], after => by simp
  | tree :: trees, after => by
    rw [errorSitesOf_cons, List.length_append, length_errorSites tree, length_errorSitesOf trees after,
      errorsOf_cons]

end

def ErrorSite.LiesIn (site : ErrorSite) (tokens after : List Token) : Prop :=
  ∃ before between, tokens = before ++ site.inside ++ between ∧ site.after = between ++ after

variable {after}

mutual

theorem liesIn_of_mem {site : ErrorSite} : (tree : Tree) → {after : List Token} →
    site ∈ tree.errorSites after → ErrorSite.LiesIn site tree.tokens after
  | .leaf token, after, member => by simp at member
  | .node label children, after, member => by
    rw [errorSites_node, List.mem_append] at member
    rw [tokens_node]
    rcases member with own | inner
    · split at own
      · obtain rfl := List.mem_singleton.mp own
        exact ⟨[], [], by simp, rfl⟩
      · cases own
    · exact liesIn_of_memOf children inner

theorem liesIn_of_memOf {site : ErrorSite} : (trees : List Tree) → {after : List Token} →
    site ∈ errorSitesOf trees after → ErrorSite.LiesIn site (tokensOf trees) after
  | [], after, member => by simp at member
  | tree :: trees, after, member => by
    rw [errorSitesOf_cons, List.mem_append] at member
    rw [tokensOf_cons]
    rcases member with first | later
    · obtain ⟨before, between, shape, rest⟩ := liesIn_of_mem tree first
      exact ⟨before, between ++ tokensOf trees, by simp [shape], by simp [rest]⟩
    · obtain ⟨before, between, shape, rest⟩ := liesIn_of_memOf trees later
      exact ⟨tree.tokens ++ before, between, by simp [shape], rest⟩

end

end Tree

end Squirrel
