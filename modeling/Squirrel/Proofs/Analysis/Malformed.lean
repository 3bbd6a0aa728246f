import Squirrel.Proofs.Analysis.Parallel
import Squirrel.Proofs.Grammar.Extraction
import Squirrel.Proofs.Safety

/-! Malformed parts of a program are passed over: they declare what they show, and nothing in them is
reported. -/

namespace Squirrel

namespace Tree

mutual

def outerTokens : Tree → List Token
  | .leaf token => [token]
  | .node label children => if label = .error then [] else outerTokensOf children

def outerTokensOf : List Tree → List Token
  | [] => []
  | tree :: trees => tree.outerTokens ++ outerTokensOf trees

end

@[simp] theorem outerTokens_leaf (token : Token) : (leaf token).outerTokens = [token] := rfl

theorem outerTokens_node (label : Label) (children : List Tree) :
    (node label children).outerTokens = if label = .error then [] else outerTokensOf children := rfl

@[simp] theorem outerTokensOf_nil : outerTokensOf [] = [] := rfl

@[simp] theorem outerTokensOf_cons (tree : Tree) (trees : List Tree) :
    outerTokensOf (tree :: trees) = tree.outerTokens ++ outerTokensOf trees := rfl

theorem outerTokens_child {label : Label} {children : List Tree} (sound : label ≠ .error)
    {child : Tree} (member : child ∈ children) :
    child.outerTokens ⊆ (node label children).outerTokens := by
  rw [outerTokens_node, if_neg sound]
  induction children with
  | nil => cases member
  | cons first children ih =>
    rw [outerTokensOf_cons]
    rcases List.mem_cons.mp member with rfl | later
    · exact List.subset_append_left _ _
    · exact List.subset_append_of_subset_right _ (ih later)

mutual

theorem outerTokens_subset : (tree : Tree) → tree.outerTokens ⊆ tree.tokens
  | .leaf token => by simp
  | .node label children => by
    rw [outerTokens_node, tokens_node]
    split
    · exact List.nil_subset _
    · exact outerTokensOf_subset children

theorem outerTokensOf_subset : (trees : List Tree) → outerTokensOf trees ⊆ tokensOf trees
  | [] => by simp
  | tree :: trees => by
    rw [outerTokensOf_cons, tokensOf_cons]
    exact List.append_subset.mpr
      ⟨List.subset_append_of_subset_left _ (outerTokens_subset tree),
        List.subset_append_of_subset_right _ (outerTokensOf_subset trees)⟩

end

/-- Of tokens that all stand in different places, no one outside malformed nodes stands where one
inside does. -/
def KeepsApart (outer : List Token) (sites : List ErrorSite) : Prop :=
  ∀ token ∈ outer, ∀ site ∈ sites, ∀ inner ∈ site.inside, token.span ≠ inner.span

mutual

theorem keepsApart : (tree : Tree) → (after : List Token) → (tree.tokens.map (·.span)).Nodup →
    KeepsApart tree.outerTokens (tree.errorSites after)
  | .leaf _, _, _ => by simp [KeepsApart]
  | .node label children, after, distinct => by
    rw [tokens_node] at distinct
    rw [outerTokens_node, errorSites_node]
    split
    · exact fun _ member => nomatch member
    · exact keepsApartOf children after distinct

theorem keepsApartOf : (trees : List Tree) → (after : List Token) →
    ((tokensOf trees).map (·.span)).Nodup →
    KeepsApart (outerTokensOf trees) (errorSitesOf trees after)
  | [], _, _ => by simp [KeepsApart]
  | tree :: trees, after, distinct => by
    rw [tokensOf_cons, List.map_append, List.nodup_append] at distinct
    obtain ⟨own, others, apart⟩ := distinct
    have here := keepsApart tree (tokensOf trees ++ after) own
    have later := keepsApartOf trees after others
    intro token outer site member inner inside
    rw [outerTokensOf_cons, List.mem_append] at outer
    rw [errorSitesOf_cons, List.mem_append] at member
    -- a token and a malformed node of different trees have no place in common
    rcases outer with first | rest <;> rcases member with ownSite | laterSite
    · exact here token first site ownSite inner inside
    · have isLater : inner ∈ tokensOf trees := by
        obtain ⟨_, _, shape, -⟩ := liesIn_of_memOf trees laterSite
        simp [shape, inside]
      exact apart _ (List.mem_map_of_mem (outerTokens_subset tree first)) _
        (List.mem_map_of_mem isLater)
    · have isOwn : inner ∈ tree.tokens := by
        obtain ⟨_, _, shape, -⟩ := liesIn_of_mem tree ownSite
        simp [shape, inside]
      exact (apart _ (List.mem_map_of_mem isOwn) _
        (List.mem_map_of_mem (outerTokensOf_subset trees rest))).symm
    · exact later token rest site laterSite inner inside

end

end Tree

namespace Analysis

/-- A well made part of a tree whose tokens stand outside the malformed nodes of the tree. -/
structure Outside (root tree other : Tree) : Prop where
  same : other = tree
  outer : tree.outerTokens ⊆ root.outerTokens
  composed : tree.everywhere Tree.isComposed
  shaped : tree.isShaped

variable {root : Tree}

theorem Outside.children {label : Label} {children : List Tree} {other : Tree}
    (outside : Outside root (.node label children) other) (sound : label ≠ .error) :
    ∀ child ∈ children, Outside root child child := by
  intro child member
  have composed := outside.composed
  simp only [Tree.everywhere_node, Bool.and_eq_true, Tree.everywhereOf_iff] at composed
  exact ⟨rfl, List.Subset.trans (Tree.outerTokens_child sound member) outside.outer, composed.2 child member,
    Tree.children_shaped outside.shaped child member⟩

theorem pairs_outside (root : Tree) : Pairs (Outside root) where
  leaf outside := ⟨_, outside.same, rfl⟩
  node {label children tree} outside := by
    refine ⟨children, outside.same, fun plain => List.forall₂_same.mpr (outside.children ?_),
      fun _ sound => List.forall₂_same.mpr fun child member =>
        outside.children sound child (List.mem_filter.mp member).1⟩
    rintro rfl
    cases plain
  composed outside := outside.composed
  shaped outside := outside.shaped
  entries {children others} outside := by
    cases outside.same
    exact List.forall₂_same.mpr fun child member =>
      outside.children (by decide) child (List.mem_filter.mp member).1
  skipped {children others} outside := by
    cases outside.same
    rfl
  shapedToo outside := outside.same ▸ outside.shaped

end Analysis

/-- A report about a single name: it is not declared, not used or declared twice. -/
def Diagnostic.isAboutName (diagnostic : Diagnostic) : Bool :=
  match diagnostic.fault with
  | .semantic (.undeclared _) | .semantic (.unused _) | .semantic (.duplicate _) => true
  | _ => false

namespace Analysis

theorem DiagnosticLike.place {Like : Tree → Tree → Prop} {one another : Diagnostic}
    (like : DiagnosticLike Like one another) (aboutName : one.isAboutName) :
    PlaceLike Like one.span another.span := by
  cases like with
  | name fault severity place => exact place
  | cycle => cases aboutName

theorem outer_of_isAboutName [NestingLimit] {known : List String} {tree : Tree}
    (composed : tree.everywhere Tree.isComposed) (shaped : tree.isShaped)
    {diagnostic : Diagnostic} (member : diagnostic ∈ (analyzeTree known tree).diagnostics)
    (aboutName : diagnostic.isAboutName) :
    ∃ token ∈ tree.outerTokens, diagnostic.span = token.span := by
  have like := diagnostics_like (pairs_outside tree) known
    (⟨rfl, List.Subset.refl _, composed, shaped⟩ : Outside tree tree tree)
  have own := List.forall₂_same.mp like diagnostic member
  obtain ⟨token, _, outside, same, -⟩ := own.place aboutName
  exact ⟨token, outside.outer (by simp), same⟩

section Recovering

def bareScope (scope : Scope) : Scope := { scope with names := [] }

/-- Only names that nobody has to use have been declared. -/
structure DeclaresQuietly (before after : State) : Prop where
  references : after.references = before.references
  inheritances : after.inheritances = before.inheritances
  diagnostics : after.diagnostics = before.diagnostics
  scope : after.scope = before.scope
  functionDepth : after.functionDepth = before.functionDepth
  scopes : after.graph.scopes.map bareScope = before.graph.scopes.map bareScope
  declarations : ∃ added, after.graph.declarations = before.graph.declarations ++ added ∧
    ∀ declaration ∈ added, declaration.quiet

theorem DeclaresQuietly.refl (state : State) : DeclaresQuietly state state :=
  ⟨rfl, rfl, rfl, rfl, rfl, rfl, [], by simp, fun _ member => nomatch member⟩

theorem DeclaresQuietly.trans {first second third : State} (one : DeclaresQuietly first second)
    (two : DeclaresQuietly second third) : DeclaresQuietly first third := by
  obtain ⟨added, shape, quiet⟩ := one.declarations
  obtain ⟨more, shape', quiet'⟩ := two.declarations
  refine ⟨two.references.trans one.references, two.inheritances.trans one.inheritances,
    two.diagnostics.trans one.diagnostics, two.scope.trans one.scope,
    two.functionDepth.trans one.functionDepth, two.scopes.trans one.scopes, added ++ more, ?_, ?_⟩
  · rw [shape', shape, List.append_assoc]
  · exact List.forall_mem_append.mpr ⟨quiet, quiet'⟩

theorem DeclaresQuietly.inside {before after : State} (quietly : DeclaresQuietly before after)
    (inside : before.scope < before.graph.scopes.length) :
    after.scope < after.graph.scopes.length := by
  have same := congrArg List.length quietly.scopes
  rw [List.length_map, List.length_map] at same
  rwa [quietly.scope, same]

variable {state : State}

theorem declaresQuietly_recovered (state : State) (scope : ScopeId) (token : Token)
    (kind : DeclarationKind) : DeclaresQuietly state (recovered state scope token kind) where
  references := rfl
  inheritances := rfl
  diagnostics := rfl
  scope := rfl
  functionDepth := rfl
  scopes := by
    refine List.ext_getElem? fun id => ?_
    rw [List.getElem?_map, List.getElem?_map, recovered, List.getElem?_modify]
    split
    · cases state.graph.scopes[id]? <;> rfl
    · simp
  declarations := ⟨_, rfl, fun declaration member => by rw [List.mem_singleton.mp member]⟩

theorem functionScope_run (isLocal : Bool) (inside : state.scope < state.graph.scopes.length) :
    ∃ home, functionScope isLocal state = .ok home state ∧ home < state.graph.scopes.length := by
  obtain ⟨scope, -, given⟩ := ScopeGraph.scope_ok inside
  refine ⟨if scope.parent = some ScopeGraph.root ∧ !isLocal then ScopeGraph.root else state.scope,
    ?_, ?_⟩
  · change (demand (state.graph.scope state.scope) >>= fun scope => pure _) state = _
    rw [given]
    rfl
  · split
    · exact Nat.lt_of_le_of_lt (Nat.zero_le _) inside
    · exact inside

theorem recoverNames_run (earlier before : Option Token) (tokens : List Token)
    (inside : state.scope < state.graph.scopes.length) :
    ∃ after, recoverNames earlier before tokens state = .ok () after ∧ DeclaresQuietly state after := by
  induction tokens generalizing state earlier before with
  | nil => exact ⟨state, rfl, .refl state⟩
  | cons token tokens ih =>
    have onward {scope : ScopeId} (kind : DeclarationKind) (there : scope < state.graph.scopes.length) :
        ∃ after, (do recover scope token kind; recoverNames before (some token) tokens) state =
          .ok () after ∧ DeclaresQuietly state after := by
      have quietly := declaresQuietly_recovered state scope token kind
      obtain ⟨after, ran, more⟩ := ih before (some token) (quietly.inside inside)
      exact ⟨after, (bind_run (recover_run there)).trans ran, quietly.trans more⟩
    unfold recoverNames
    dsimp only
    split
    · split
      · exact onward .localVariable inside
      · split
        · obtain ⟨home, found, there⟩ := functionScope_run _ inside
          rw [bind_run found]
          exact onward .function there
        · split
          · exact onward .tableSlot (Nat.lt_of_le_of_lt (Nat.zero_le _) inside)
          · exact ih before (some token) inside
    · exact ih before (some token) inside

theorem walk_errorNode (levels : Nat) (tokens : List Token) :
    walk (levels + 1) (Grammar.errorNode tokens) =
      (do recoverNames none none tokens; return none) := by
  have fitting : Tree.admits .error (tokens.map .leaf) := by
    simp [Tree.admits, Label.fits, Tree.admitsWithin, Tree.isNode, Tree.isLeaf]
  rw [Grammar.errorNode, walk, visit, if_pos fitting]
  change (do recoverNames none none (Tree.tokensOf (tokens.map .leaf)); return none) = _
  rw [Tree.tokensOf_leaves]

theorem walk_malformed (levels : Nat) (tokens : List Token)
    (inside : state.scope < state.graph.scopes.length) :
    ∃ after, walk (levels + 1) (Grammar.errorNode tokens) state = .ok none after ∧
      DeclaresQuietly state after := by
  obtain ⟨after, ran, quietly⟩ := recoverNames_run none none tokens inside
  refine ⟨after, ?_, quietly⟩
  rw [walk_errorNode, bind_run ran]
  rfl

end Recovering

end Analysis

open Analysis

theorem kind_of_parse [NestingLimit] {source : String} {diagnostic : Diagnostic}
    (member : diagnostic ∈ (parse source).diagnostics) : diagnostic.isAboutName = false := by
  obtain ⟨trees, last, -, isProgram⟩ := parse_isProgram source
  rw [mem_parse_diagnostics] at member
  rcases member with lexical | grammatical
  · rcases (tokenize_accounted source).2 diagnostic lexical with ⟨_, same⟩ | ⟨⟨_, same, -⟩, -⟩ <;>
      simp [Diagnostic.isAboutName, same]
  · obtain ⟨site, -, isSyntax, -⟩ := isProgram.located diagnostic grammatical
    cases same : diagnostic.fault with
    | semantic fault => cases fault <;> simp [Diagnostic.kind, same, Fault.kind] at isSyntax
    | _ => simp [Diagnostic.isAboutName, same]

/-- No name inside a malformed node is reported as undeclared, as unused or as declared twice. The
visit of a malformed node adds nothing but declarations that nobody has to use. -/
theorem malformed_passed_over [NestingLimit] (known : List String) (source : String) :
    (∀ diagnostic ∈ analyze known source, diagnostic.isAboutName = true →
      ∀ site ∈ (parse source).tree.errorSites [], ¬ diagnostic.SitsOn site.inside) ∧
    (∀ (levels : Nat) (tokens : List Token) (state : State),
      state.scope < state.graph.scopes.length →
      ∃ after, walk (levels + 1) (Grammar.errorNode tokens) state = .ok none after ∧
        DeclaresQuietly state after) := by
  refine ⟨?_, fun levels tokens state inside => walk_malformed levels tokens inside⟩
  rintro diagnostic member aboutName site isSite ⟨inner, inside, same⟩
  rw [analyze, Diagnostic.inSourceOrder, List.mem_mergeSort, List.mem_append] at member
  rcases member with parsed | analyzed
  · rw [kind_of_parse parsed] at aboutName
    cases aboutName
  · obtain ⟨token, outer, place⟩ :=
      outer_of_isAboutName (composed_parse source) (shaped_parse source) analyzed aboutName
    have distinct : ((parse source).tree.tokens.map (·.span)).Nodup := by
      rw [tokens_parse]
      exact distinct_spans source
    exact Tree.keepsApart _ [] distinct token outer site isSite inner inside (place.symm.trans same)

theorem malformed_passed_over_line :
    (∀ diagnostic ∈ analyze [] "x\nlocal = x", diagnostic.isAboutName = true →
      ∀ site ∈ (parse "x\nlocal = x").tree.errorSites [], ¬ diagnostic.SitsOn site.inside) ∧
    ∃ after, walk 1 (Grammar.errorNode (tokenize "local x = function f <-").tokens) .initial =
      .ok none after ∧ DeclaresQuietly .initial after := by
  have passed := malformed_passed_over [] "x\nlocal = x"
  exact ⟨passed.1, passed.2 0 _ .initial (by decide)⟩

/-- The name is reported where it stands alone, and not again in the malformed line. -/
example : (analyzeTree [] (parse "x\nlocal = x").tree).diagnostics.map (·.span.start) = [0] := by
  decide +kernel

end Squirrel
