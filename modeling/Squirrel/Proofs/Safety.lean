import Squirrel.Format
import Squirrel.Highlight
import Squirrel.Proofs.Analysis.Resolved
import Squirrel.Proofs.Layout.Known
import Squirrel.Proofs.Layout.Order

/-! Nothing that is done with the tree of a text breaks down. -/

namespace Squirrel

open Grammar (IsProgram)

namespace Tree

mutual

theorem nodes_shaped : (tree : Tree) → tree.isShaped →
    ∀ node ∈ tree.nodes, node.isShaped
  | .leaf token, _ => by simp [nodes]
  | .node label children, shaped => by
    have below := (areShaped_iff children).mpr (children_shaped shaped)
    rw [nodes, List.forall_mem_cons]
    exact ⟨shaped, nodesOf_shaped children below⟩

theorem nodesOf_shaped : (trees : List Tree) → areShaped trees →
    ∀ node ∈ nodesOf trees, node.isShaped
  | [], _ => by simp [nodesOf]
  | tree :: trees, shaped => by
    rw [areShaped_cons, Bool.and_eq_true] at shaped
    rw [nodesOf, List.forall_mem_append]
    exact ⟨nodes_shaped tree shaped.1, nodesOf_shaped trees shaped.2⟩

end

theorem full_of_isShaped {label : Label} {children : List Tree}
    (shaped : (node label children).isShaped) :
    ∀ child ∈ children, Layout.standsAlone label child →
      child.firstToken?.isSome := by
  simp only [isShaped, Bool.and_eq_true] at shaped
  intro child member alone
  have either := List.all_eq_true.mp shaped.1.2 child member
  simpa [alone] using either

end Tree

theorem shaped_program [NestingLimit] {tokens : List Token} {parsed : Parsed} {trees : List Tree}
    {last : Token}
    (isProgram : IsProgram tokens parsed trees last) : parsed.tree.isShaped := by
  have derived := isProgram.derived
  rw [isProgram.tree, ← Tree.areShaped_single]
  refine Grammar.shaped_units _ rfl ?_ rfl ?_ ?_
  · have nodes := derived.kinds_all rfl
    have closes : (((trees ++ [Tree.leaf last]).map (·.isNode)).getLast? = some false) := by simp
    have between : ((trees ++ [Tree.leaf last]).map (·.isNode)).dropLast =
        trees.map (·.isNode) := by simp
    change (decide _ && List.all _ _)
    rw [between, nodes, closes]
    rfl
  · intro child member alone
    rcases List.mem_append.mp member with listed | ending
    · exact derived.members rfl child listed
    · rw [List.mem_singleton.mp ending]
      simp
  · rw [Tree.areShaped_append, derived.shaped, Tree.areShaped_leaf_cons]
    rfl

theorem shaped_parse [NestingLimit] (source : String) : (parse source).tree.isShaped := by
  obtain ⟨trees, last, -, isProgram⟩ := parse_isProgram source
  have shaped := shaped_program isProgram
  exact shaped

theorem ordered_parse [NestingLimit] (source : String) :
    (parse source).tree.everywhere Layout.ordered := by
  obtain ⟨trees, last, shape, isProgram⟩ := parse_isProgram source
  rw [shape]
  simpa [Layout.ordered] using isProgram.derived.ordered

theorem formatParsed_ok [NestingLimit] (options : FormatOptions) (source : String) {parsed : Parsed}
    (shaped : parsed.tree.isShaped) (inOrder : parsed.tree.everywhere Layout.ordered) :
    formatParsed? options source parsed = .ok (formatParsed options source parsed) := by
  have known := (Layout.known_document source.toList shaped inOrder).1
  have printed : ∃ text, formatParsed? options source parsed = .ok text := by
    unfold formatParsed?
    split
    · unfold formatTree? Doc.printFrom
      rw [show (Layout.document source.toList parsed.tree).unknown? = none from known]
      exact ⟨_, rfl⟩
    · exact ⟨source, rfl⟩
  obtain ⟨text, isText⟩ := printed
  rw [formatParsed, isText]
  rfl

namespace Highlight

theorem callee_marked {called : Tree} (shaped : called.isShaped) :
    (!isNamed called || !called.children.isEmpty) := by
  cases called with
  | leaf token => rfl
  | node label children =>
    have fits := (Bool.and_eq_true_iff.mp (Tree.admits_of_isShaped shaped)).1
    cases label with
    | reference | rootReference | member =>
      obtain ⟨first, rest, rfl, -, -⟩ := List.map_eq_cons_iff.mp (of_decide_eq_true fits)
      rfl
    | _ => rfl

theorem hasMarked_of_isShaped {tree : Tree} (shaped : tree.isShaped) : hasMarked tree := by
  cases tree with
  | leaf token => rfl
  | node label children =>
    have fits := (Bool.and_eq_true_iff.mp (Tree.admits_of_isShaped shaped)).1
    have below := Tree.children_shaped shaped
    cases label with
    | tableMethod =>
      have kinds := of_decide_eq_true fits
      have counted := congrArg List.length kinds
      rw [List.length_map] at counted
      simp [hasMarked, counted]
    | call | inheritCall =>
      obtain ⟨called, rest, rfl, -, -⟩ := List.map_eq_cons_iff.mp (of_decide_eq_true fits)
      exact callee_marked (below called (by simp [Tree.children]))
    | member | tableSlot =>
      obtain ⟨first, rest, rfl, -, -⟩ := List.map_eq_cons_iff.mp (of_decide_eq_true fits)
      rfl
    | parameter =>
      rcases Bool.or_eq_true_iff.mp fits with short | long
      · obtain ⟨first, rest, rfl, -, -⟩ := List.map_eq_cons_iff.mp (of_decide_eq_true short)
        rfl
      · obtain ⟨first, rest, rfl, -, -⟩ := List.map_eq_cons_iff.mp (of_decide_eq_true long)
        rfl
    | _ => rfl

theorem treeRanges_ok (source : String) {tree : Tree} (shaped : tree.isShaped) :
    ∃ ranges, treeRanges? source tree = .ok ranges := by
  have none : tree.nodes.find? (!hasMarked ·) = none := by
    rw [List.find?_eq_none]
    intro node member
    simp [hasMarked_of_isShaped (tree.nodes_shaped shaped node member)]
  unfold treeRanges?
  rw [none]
  exact ⟨_, rfl⟩

end Highlight

/-- Every node of the tree of a text is made of what its label asks for, and what stands on its own
has a first token. So the text is formatted, analysed and coloured without a breakdown, and the
analysis has no number in it that stands for nothing. -/
theorem parse_never_breaks_down [NestingLimit] (source : String) (options : FormatOptions)
    (known : List String) :
    (∀ label children, .node label children ∈ (parse source).tree.nodes →
      Tree.admits label children = true ∧
        ∀ child ∈ children, Layout.standsAlone label child = true →
          child.firstToken?.isSome = true) ∧
    format? options source = .ok (format options source) ∧
    (analyzeTree? known (parse source).tree = .ok (analyzeTree known (parse source).tree) ∧
      (analyzeTree known (parse source).tree).InRange) ∧
    Highlight.ranges? source = .ok (Highlight.ranges source) := by
  have shaped := shaped_parse source
  refine ⟨?_, formatParsed_ok options source shaped (ordered_parse source), ?_, ?_⟩
  · intro label children member
    have own := (parse source).tree.nodes_shaped shaped _ member
    exact ⟨Tree.admits_of_isShaped own, Tree.full_of_isShaped own⟩
  · obtain ⟨analysis, analysed, inRange⟩ := Analysis.analyzeTree_ok known shaped
    have same : analyzeTree known (parse source).tree = analysis := by
      rw [analyzeTree, analysed]
      rfl
    rw [same]
    exact ⟨analysed, inRange⟩
  · obtain ⟨ranges, coloured⟩ := Highlight.treeRanges_ok source shaped
    rw [Highlight.ranges, show Highlight.ranges? source = .ok ranges from coloured]
    rfl

end Squirrel
