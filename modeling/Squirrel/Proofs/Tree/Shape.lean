import Squirrel.Layout.Basic
import Squirrel.Proofs.Grammar.Derivation

/-! Every node that the grammar derives is made of what its label asks for. -/

namespace Squirrel

def Itemized {α β : Type} (f : α → β) : List β → (List α → Prop) → Prop
  | [], found => found []
  | value :: values, found =>
    ∃ item, f item = value ∧ Itemized f values fun rest => found (item :: rest)

theorem itemized_of {α β : Type} {f : α → β} {items : List α} {values : List β}
    {found : List α → Prop} (same : items.map f = values) (holds : found items) :
    Itemized f values found := by
  subst same
  induction items generalizing found with
  | nil => exact holds
  | cons item items ih => exact ⟨item, rfl, ih holds⟩

theorem itemized {α β : Type} {f : α → β} {items : List α} {values : List β}
    (same : items.map f = values) : Itemized f values (items = ·) :=
  itemized_of same rfl

variable {label : Label} {children : List Tree}

namespace Tree

mutual

/-- Every node is made of what its label asks for, and what stands on its own has a token. -/
def isShaped : Tree → Bool
  | .leaf _ => true
  | .node label children =>
    admits label children &&
      (children.all fun child => !Layout.standsAlone label child || child.firstToken?.isSome) &&
      areShaped children

def areShaped : List Tree → Bool
  | [] => true
  | tree :: trees => tree.isShaped && areShaped trees

end

@[simp] theorem isShaped_leaf (token : Token) : (leaf token).isShaped := by rw [isShaped]

@[simp] theorem areShaped_nil : areShaped [] := by rw [areShaped]

theorem areShaped_cons (tree : Tree) (trees : List Tree) :
    areShaped (tree :: trees) = (tree.isShaped && areShaped trees) := by rw [areShaped]

theorem areShaped_single (tree : Tree) : areShaped [tree] = tree.isShaped := by
  simp [areShaped_cons]

@[simp] theorem areShaped_leaf_cons (token : Token) (trees : List Tree) :
    areShaped (.leaf token :: trees) = areShaped trees := by simp [areShaped_cons]

theorem areShaped_head (tree : Tree) (trees : List Tree) :
    areShaped (tree :: trees) = (areShaped [tree] && areShaped trees) := by simp [areShaped_cons]

@[simp] theorem areShaped_two (first second : Tree) (trees : List Tree) :
    areShaped (first :: second :: trees) = (areShaped [first] && areShaped (second :: trees)) :=
  areShaped_head first (second :: trees)

@[simp] theorem areShaped_append (first second : List Tree) :
    areShaped (first ++ second) = (areShaped first && areShaped second) := by
  induction first with
  | nil => simp
  | cons tree first ih => simp [areShaped_cons, ih, Bool.and_assoc]

@[simp] theorem areShaped_leaves (tokens : List Token) : areShaped (tokens.map .leaf) := by
  induction tokens with
  | nil => simp
  | cons token tokens ih => simp [ih]

theorem areShaped_iff (trees : List Tree) : areShaped trees ↔ ∀ tree ∈ trees, tree.isShaped := by
  induction trees with
  | nil => simp
  | cons tree trees ih => simp [areShaped_cons, ih]

theorem admits_of_isShaped (shaped : (node label children).isShaped) : admits label children := by
  simp only [isShaped, Bool.and_eq_true] at shaped
  exact shaped.1.1

theorem children_shaped {tree : Tree} (shaped : tree.isShaped) :
    ∀ child ∈ tree.children, child.isShaped := by
  cases tree with
  | leaf token => simp [children]
  | node label inner =>
    simp only [isShaped, Bool.and_eq_true] at shaped
    exact (areShaped_iff inner).mp shaped.2

mutual

theorem firstToken?_eq : (tree : Tree) → tree.firstToken? = tree.tokens.head?
  | .leaf token => by simp [firstToken?]
  | .node label children => by
    rw [firstToken?, tokens_node]
    exact firstTokenOf?_eq children

theorem firstTokenOf?_eq : (trees : List Tree) → firstTokenOf? trees = (tokensOf trees).head?
  | [] => by simp [firstTokenOf?]
  | tree :: trees => by
    rw [firstTokenOf?, tokensOf_cons, List.head?_append, firstToken?_eq tree,
      firstTokenOf?_eq trees]

end

mutual

theorem lastToken?_eq : (tree : Tree) → tree.lastToken? = tree.tokens.getLast?
  | .leaf token => by simp [lastToken?]
  | .node label children => by
    rw [lastToken?, tokens_node]
    exact lastTokenOf?_eq children

theorem lastTokenOf?_eq : (trees : List Tree) → lastTokenOf? trees = (tokensOf trees).getLast?
  | [] => by simp [lastTokenOf?]
  | tree :: trees => by
    rw [lastTokenOf?, tokensOf_cons, List.getLast?_append, lastToken?_eq tree,
      lastTokenOf?_eq trees]

end

@[simp] theorem isNode_leaf (token : Token) : (leaf token).isNode = false := rfl

@[simp] theorem isNode_node (label : Label) (children : List Tree) :
    (node label children).isNode := rfl

theorem leaf_of_isNode {tree : Tree} (isToken : tree.isNode = false) :
    ∃ token, tree = .leaf token := by
  cases tree with
  | leaf token => exact ⟨token, rfl⟩
  | node label children => cases isToken

theorem node_of_label {tree : Tree} (isOwn : tree.label? = some label) :
    ∃ children, tree = .node label children := by
  cases tree with
  | leaf token => cases isOwn
  | node own children =>
    cases isOwn
    exact ⟨children, rfl⟩

end Tree

namespace Grammar

open Squirrel.Tree (nextOf)

def Category.isNodes : Category → Bool
  | .deeper category => category.isNodes
  | .separated _ | .ending | .namePath | .parentheses | .parameterList | .items | .entries => false
  | _ => true

theorem isNode_makeCall (callee list : Tree) : (makeCall callee list).isNode := by
  unfold makeCall
  split
  · split <;> rfl
  · rfl

variable {category : Category}

theorem Derives.nodes {levels : Nat} {trees : List Tree} {next : Token}
    (derived : Derives levels category trees next) (isNodes : category.isNodes) :
    trees.all (·.isNode) := by
  induction derived <;> simp_all [Category.isNodes, isNode_makeCall, errorNode]

theorem Derives.isNode {levels : Nat} {tree : Tree} {next : Token}
    (derived : Derives levels category [tree] next) (isNodes : category.isNodes) : tree.isNode := by
  simpa using derived.nodes isNodes

theorem Derives.kinds_parentheses {levels : Nat} {trees : List Tree} {next : Token}
    (derived : Derives levels .parentheses trees next) :
    trees.map (·.isNode) = [false, true, false] := by
  cases derived with
  | parentheses _ between _ => simp [between.isNode rfl]

theorem Derives.kinds_ending {levels : Nat} {trees : List Tree} {next : Token}
    (derived : Derives levels .ending trees next) : isEnding (trees.map (·.isNode)) := by
  cases derived <;> rfl

theorem Derives.kinds_namePath {levels : Nat} {trees : List Tree} {next : Token}
    (derived : Derives levels .namePath trees next) : (trees.map (·.isNode)).all (!·) := by
  generalize isPath : Category.namePath = category at derived
  induction derived with
  | pathEnd => rfl
  | pathStep _ _ _ ih => simpa using ih isPath
  | _ => cases isPath

theorem Derives.kinds_all {levels : Nat} {trees : List Tree} {next : Token}
    (derived : Derives levels category trees next) (isNodes : category.isNodes) :
    (trees.map (·.isNode)).all id := by
  have nodes := derived.nodes isNodes
  simpa using nodes

/-- Labels that ask nothing of the children of their children, and lay out no child on its own. -/
def isPlain : Label → Bool
  | .program | .block | .caseBody | .table | .switchStatement | .array | .inheritCall
  | .hookWrapper | .localDeclaration | .parameters | .functionDeclaration | .functionLiteral
  | .lambdaLiteral | .tableMethod => false
  | _ => true

def isTogether : Label → Bool
  | .program | .block | .caseBody | .table | .switchStatement | .array => false
  | _ => true

theorem isPlain_within (plain : isPlain label) (children : List Tree) :
    Tree.admitsWithin label children := by
  unfold Tree.admitsWithin
  split <;> first | cases plain | rfl

theorem together_of_plain (plain : isPlain label) : isTogether label := by
  cases label <;> first | rfl | cases plain

theorem isTogether_alone (together : isTogether label) (child : Tree) :
    Layout.standsAlone label child = false := by
  cases child with
  | leaf token => cases label <;> rfl
  | node inner children => cases label <;> first | rfl | cases together

theorem shaped_together (kinds : List Bool) (same : children.map (·.isNode) = kinds)
    (fits : label.fits kinds) (within : Tree.admitsWithin label children)
    (together : isTogether label) (below : Tree.areShaped children) :
    Tree.areShaped [.node label children] := by
  rw [Tree.areShaped_single, Tree.isShaped, Tree.admits, same, fits, within, below]
  simp [isTogether_alone together]

theorem shaped_plain (kinds : List Bool) (same : children.map (·.isNode) = kinds)
    (fits : label.fits kinds) (plain : isPlain label)
    (below : Tree.areShaped children) : Tree.areShaped [.node label children] :=
  shaped_together kinds same fits (isPlain_within plain children) (together_of_plain plain) below

theorem shaped_units (kinds : List Bool) (same : children.map (·.isNode) = kinds)
    (fits : label.fits kinds) (within : Tree.admitsWithin label children)
    (full : ∀ child ∈ children, Layout.standsAlone label child → child.tokens ≠ [])
    (below : Tree.areShaped children) : Tree.areShaped [.node label children] := by
  rw [Tree.areShaped_single, Tree.isShaped, Tree.admits, same, fits, within, below]
  simp only [Bool.and_true, Bool.true_and, List.all_eq_true, Bool.or_eq_true, Bool.not_eq_true']
  intro child member
  cases alone : Layout.standsAlone label child with
  | false => exact .inl rfl
  | true =>
    have someToken := full child member alone
    rw [Tree.firstToken?_eq]
    exact .inr (by simpa using someToken)

def Category.isUnits : Category → Bool
  | .statements _ | .clauses | .items | .entries => true
  | _ => false

theorem tokens_ne_nil {levels : Nat} {tree : Tree} {next : Token}
    (derived : Derives levels category [tree] next) (isFull : category.isFull) :
    tree.tokens ≠ [] := by
  simpa using derived.full isFull

theorem Derives.members {levels : Nat} {trees : List Tree} {next : Token}
    (derived : Derives levels category trees next) (isUnits : category.isUnits) :
    ∀ child ∈ trees, child.tokens ≠ [] := by
  induction derived with
  | noItem | noEntry | noStatement | noClause => simp
  | item _ first _ _ _ ih | oneEntry _ first _ _ _ ih | statements _ _ first _ _ ih
  | clauses _ first _ _ ih =>
    intro child member
    rcases List.mem_cons.mp member with rfl | later
    · exact tokens_ne_nil first rfl
    · exact ih rfl child later
  | itemComma _ first _ _ _ ih | entryComma _ first _ _ _ ih =>
    intro child member
    rcases List.mem_cons.mp member with rfl | later
    · exact tokens_ne_nil first rfl
    rcases List.mem_cons.mp later with rfl | last
    · simp
    · exact ih rfl child last
  | _ => cases isUnits

theorem full_between {levels : Nat} {trees : List Tree} {next opener closer : Token}
    (between : Derives levels category trees next) (isUnits : category.isUnits) :
    ∀ child ∈ Tree.leaf opener :: trees ++ [.leaf closer],
      Layout.standsAlone label child → child.tokens ≠ [] := by
  intro child member _
  simp only [List.cons_append, List.mem_cons, List.mem_append, List.not_mem_nil,
    or_false] at member
  rcases member with rfl | inside | rfl
  · simp
  · exact between.members isUnits child inside
  · simp

section Labels

variable {levels : Nat} {trees : List Tree} {tree : Tree} {next : Token}

theorem Derives.parameters_label (derived : Derives levels .parameters [tree] next) :
    tree.label? = some .parameters := by
  cases derived
  rfl

theorem Derives.functionName_label (derived : Derives levels .functionName [tree] next) :
    tree.label? = some .functionName := by
  cases derived <;> rfl

def Category.labels : Category → List Label
  | .separated .declarator => [.declarator]
  | .declarator => [.declarator]
  | .parameterList | .parameter => [.parameter]
  | .clauses | .clause => [.caseClause, .defaultClause]
  | .entries | .entry => Tree.entryLabels
  | _ => []

@[simp] theorem nodesAre_nil (labels : List Label) : Tree.nodesAre labels [] := rfl

theorem nodesAre_cons (labels : List Label) (first : Tree) (others : List Tree) :
    Tree.nodesAre labels (first :: others) =
      (Tree.nodesAre labels [first] && Tree.nodesAre labels others) := by
  simp [Tree.nodesAre]

theorem nodesAre_append (labels : List Label) (first second : List Tree) :
    Tree.nodesAre labels (first ++ second) =
      (Tree.nodesAre labels first && Tree.nodesAre labels second) := by
  simp [Tree.nodesAre]

theorem nodesAre_leaf (labels : List Label) (token : Token) (others : List Tree) :
    Tree.nodesAre labels (.leaf token :: others) = Tree.nodesAre labels others := by
  simp [Tree.nodesAre, Tree.isLeaf]

theorem Derives.nodesAre (derived : Derives levels category trees next)
    (listed : category.labels ≠ []) : Tree.nodesAre category.labels trees := by
  induction derived with
  | noParameter | noClause | noEntry => rfl
  | variadic | parameter | parameterDefault | caseClause | defaultClause | slot | quotedSlot
  | computedSlot | method | skippedEntry | declarator | declaratorValue => rfl
  | lastParameter _ _ ih => exact ih listed
  | moreParameters _ _ _ first others | entryComma _ _ _ _ first others =>
    rw [nodesAre_cons, nodesAre_leaf]
    exact Bool.and_eq_true_iff.mpr ⟨first listed, others listed⟩
  | oneEntry _ _ _ _ first others | clauses _ _ _ first others =>
    rw [nodesAre_cons]
    exact Bool.and_eq_true_iff.mpr ⟨first listed, others listed⟩
  | @lastSeparated _ _ item _ _ _ ih =>
    cases item <;> first | exact ih listed | exact absurd rfl listed
  | @moreSeparated _ _ item _ _ _ _ _ _ first others =>
    rw [nodesAre_cons, nodesAre_leaf, others listed, Bool.and_true]
    cases item <;> first | exact first listed | exact absurd rfl listed
  | _ => exact absurd rfl listed

theorem Derives.nodesAre_ending (derived : Derives levels .ending trees next)
    (labels : List Label) : Tree.nodesAre labels trees := by
  cases derived <;> rfl

end Labels

theorem shaped_makeCall {callee list : Tree} (isCallee : callee.isNode) (isList : list.isNode)
    (below : Tree.areShaped [callee, list]) : Tree.areShaped [makeCall callee list] := by
  have kinds : [callee, list].map (·.isNode) = [true, true] := by simp [isCallee, isList]
  unfold makeCall
  split
  · next first body both =>
    split
    · next inherits =>
      refine shaped_together [true, true] kinds rfl ?_ rfl below
      simp [Tree.admitsWithin, both, inherits.1]
    · exact shaped_plain [true, true] kinds rfl rfl below
  · exact shaped_plain [true, true] kinds rfl rfl below

theorem Derives.parameter_head {levels : Nat} {tree : Tree} {next : Token}
    (derived : Derives levels .parameter [tree] next) : tree.children.head?.any (·.isLeaf) := by
  cases derived <;> rfl

theorem Derives.parameterList_heads {levels : Nat} {trees : List Tree} {next : Token}
    (derived : Derives levels .parameterList trees next) :
    ∀ tree ∈ trees, tree.isNode → tree.children.head?.any (·.isLeaf) := by
  generalize isList : Category.parameterList = category at derived
  induction derived with
  | noParameter => simp
  | lastParameter last _ => simpa using fun _ => last.parameter_head
  | moreParameters first _ _ _ ih => simpa using ⟨fun _ => first.parameter_head, ih isList⟩
  | _ => cases isList

theorem Derives.parameters_heads {levels : Nat} {list : Tree} {next : Token}
    (derived : Derives levels .parameters [list] next) :
    ∀ parameter ∈ list.subtrees, parameter.children.head?.any (·.isLeaf) := by
  cases derived with
  | parameters _ between _ =>
    intro parameter member
    obtain ⟨inside, isNode⟩ := List.mem_filter.mp member
    simp only [Tree.children, List.cons_append, List.mem_cons, List.mem_append, List.not_mem_nil,
      or_false] at inside
    rcases inside with rfl | given | rfl
    · cases isNode
    · exact between.parameterList_heads parameter given isNode
    · cases isNode

theorem shaped_lambda {levels : Nat} {sign next : Token} {list body : Tree}
    (head : Derives levels .parameters [list] next) (isBody : body.isNode)
    (below : Tree.areShaped [.leaf sign, list, body]) :
    Tree.areShaped [.node (lambdaLabel list body) [.leaf sign, list, body]] := by
  have isList : list.hasLabel .parameters := by
    simp [Tree.hasLabel, head.parameters_label]
  have kinds : [Tree.leaf sign, list, body].map (·.isNode) = [false, true, true] := by
    simp [head.isNode rfl, isBody]
  unfold lambdaLabel
  split
  · next hooks =>
    obtain ⟨names, isFunction⟩ := hooks
    refine shaped_together [false, true, true] kinds rfl ?_ rfl below
    obtain ⟨parameter, others, shape, _⟩ := List.map_eq_cons_iff.mp names
    have first := head.parameters_heads parameter (by rw [shape]; simp)
    simp [Tree.admitsWithin, isFunction, shape, first]
  · exact shaped_together [false, true, true] kinds rfl isList rfl below

theorem shaped_errorNode (tokens : List Token) : Tree.areShaped [errorNode tokens] := by
  refine shaped_plain _ rfl ?_ rfl (Tree.areShaped_leaves tokens)
  change List.all _ (!·)
  simp

theorem isEnclosed_between (kinds : List Bool) : isEnclosed (false :: (kinds ++ [false])) := by
  simp [isEnclosed]

theorem enclosesNodes_between {levels : Nat} {trees : List Tree} {next : Token}
    (opener closer : Token) (between : Derives levels category trees next)
    (isNodes : category.isNodes) :
    enclosesNodes ((Tree.leaf opener :: trees ++ [Tree.leaf closer]).map (·.isNode)) := by
  have nodes := between.kinds_all isNodes
  simpa [enclosesNodes] using nodes

theorem shaped_clause {trees : List Tree} (clause : trees = [] ∨ ∃ tree, trees = [tree])
    (nodes : trees.all (·.isNode))
    (isClause : label = .forInit ∨ label = .forCondition ∨ label = .forStep)
    (below : Tree.areShaped trees) : Tree.areShaped [.node label trees] := by
  have plain : isPlain label := by rcases isClause with rfl | rfl | rfl <;> rfl
  refine shaped_plain _ rfl ?_ plain below
  rcases clause with rfl | ⟨tree, rfl⟩
  · rcases isClause with rfl | rfl | rfl <;> rfl
  · have isNode : tree.isNode := by simpa using nodes
    rw [List.map_singleton, isNode]
    rcases isClause with rfl | rfl | rfl <;> rfl

theorem Derives.forInit_one {levels : Nat} {trees : List Tree} {next : Token}
    (derived : Derives levels .forInit trees next) : trees = [] ∨ ∃ tree, trees = [tree] := by
  cases derived <;> simp

theorem Derives.optional_one {levels : Nat} {closer : Kind} {trees : List Tree} {next : Token}
    (derived : Derives levels (.optionalExpression closer) trees next) :
    trees = [] ∨ ∃ tree, trees = [tree] := by
  cases derived <;> simp

theorem shaped_loopNames {names : List Tree} (named : LoopNames names) :
    Tree.areShaped [.node .foreachVariables names] := by
  rcases named with ⟨name, _, rfl⟩ | ⟨key, comma, value, _, _, _, rfl⟩
  · exact shaped_plain _ rfl rfl rfl (by simp)
  · exact shaped_plain _ rfl rfl rfl (by simp)

theorem filter_leaves (tokens : List Token) : (tokens.map Tree.leaf).filter (·.isNode) = [] := by
  simp

theorem count_leaves (tokens : List Token) :
    ((tokens.map Tree.leaf).map (·.isNode)).count true = 0 := by
  rw [List.count_eq_zero]
  simp

theorem Derives.shaped {levels : Nat} {trees : List Tree} {next : Token}
    (derived : Derives levels category trees next) : Tree.areShaped trees := by
  induction derived with
  | deeper _ ih | plainOperand _ ih | operand _ _ ih | unaryOperand _ _ ih | firstOperand _ ih
  | binary _ _ ih | noChoice _ _ ih | noAssignment _ _ ih | lastSeparated _ _ ih
  | lastParameter _ _ ih | unit _ ih | blockStatement _ ih | forExpression _ _ _ ih
  | someExpression _ _ ih => exact ih
  | noParameter | noItem | noEntry | noStatement | noSemicolon | semicolon | forNothing
  | noExpression | noClause | pathEnd => simp
  | moreSeparated _ _ _ first others | moreParameters _ _ _ first others
  | item _ _ _ _ first others | oneEntry _ _ _ _ first others | itemComma _ _ _ _ first others
  | entryComma _ _ _ _ first others | statements _ _ _ _ first others
  | clauses _ _ _ first others =>
    rw [Tree.areShaped_head, first]
    simpa using others
  | pathStep _ _ _ ih => simpa using ih
  | skippedEntry | skippedUnit => exact shaped_errorNode _
  | reference | thisObject | baseObject | literal | malformed | variadic | parameter
  | emptyStatement | declarator | rootReference | noArguments =>
    exact shaped_plain _ rfl rfl rfl (by simp)
  | parentheses _ _ _ ih => simpa using ih
  | parenthesized inside ih =>
    exact shaped_plain _ inside.kinds_parentheses rfl rfl ih
  | @array _ _ inner _ _ _ between _ ih =>
    exact shaped_units (false :: (inner.map (·.isNode) ++ [false])) (by simp)
      (isEnclosed_between _) rfl (full_between between rfl) (by simpa using ih)
  | @table _ _ inner _ _ _ between _ ih =>
    have entries : Tree.nodesAre Tree.entryLabels inner := between.nodesAre (by decide)
    refine shaped_units (false :: (inner.map (·.isNode) ++ [false])) (by simp)
      (isEnclosed_between _) ?_ (full_between between rfl) (by simpa using ih)
    simpa [Tree.admitsWithin, nodesAre_append, nodesAre_leaf] using entries
  | @arguments _ _ inner _ _ _ _ _ _ ih =>
    exact shaped_plain (false :: (inner.map (·.isNode) ++ [false])) (by simp)
      (isEnclosed_between _) rfl (by simpa using ih)
  | @parameters _ _ inner _ _ _ between _ ih =>
    have list : Tree.nodesAre [.parameter] inner := between.nodesAre (by decide)
    refine shaped_together (false :: (inner.map (·.isNode) ++ [false])) (by simp)
      (isEnclosed_between _) ?_ rfl (by simpa using ih)
    simpa [Tree.admitsWithin, nodesAre_append, nodesAre_leaf] using list
  | functionLiteral _ head inside headIh insideIh | lambdaBlock _ head inside headIh insideIh =>
    exact shaped_together [false, true, true] (by simp [head.isNode rfl, inside.isNode rfl]) rfl
      (by simp [Tree.admitsWithin, Tree.hasLabel, head.parameters_label]) rfl
      (by simp [headIh, insideIh])
  | lambda _ head _ inside headIh insideIh =>
    exact shaped_lambda head (inside.isNode rfl) (by simp [headIh, insideIh])
  | member object _ _ ih =>
    exact shaped_plain [true, false, false] (by simp [object.isNode rfl]) rfl rfl (by simpa using ih)
  | call called given calledIh givenIh =>
    exact shaped_makeCall (called.isNode rfl) (given.isNode rfl) (by simp [calledIh, givenIh])
  | index object _ _ between _ objectIh betweenIh =>
    exact shaped_plain [true, false, true, false]
      (by simp [object.isNode rfl, between.isNode rfl]) rfl rfl (by simp [objectIh, betweenIh])
  | postUpdate updated _ _ ih =>
    exact shaped_plain [true, false] (by simp [updated.isNode rfl]) rfl rfl (by simpa using ih)
  | unaryOperator _ applied ih =>
    exact shaped_plain [false, true] (by simp [applied.isNode rfl]) rfl rfl (by simpa using ih)
  | @infixOperator _ _ _ _ _ _ operator start _ _ applied startIh appliedIh =>
    refine shaped_plain [true, false, true] (by simp [start.isNode rfl, applied.isNode rfl]) ?_ ?_
      (by simp [startIh, appliedIh])
    · unfold operatorLabel
      split <;> rfl
    · unfold operatorLabel
      split <;> rfl
  | choice tested _ either _ other testedIh eitherIh otherIh =>
    exact shaped_plain [true, false, true, false, true]
      (by simp [tested.isNode rfl, either.isNode rfl, other.isNode rfl]) rfl rfl (by simp [testedIh, eitherIh, otherIh])
  | assignment assigned _ given assignedIh givenIh =>
    refine shaped_plain [true, false, true] (by simp [assigned.isNode rfl, given.isNode rfl]) ?_ ?_
      (by simp [assignedIh, givenIh])
    · unfold assignmentLabel
      split <;> rfl
    · unfold assignmentLabel
      split <;> rfl
  | parameterDefault _ _ given ih | slot _ _ given ih | quotedSlot _ _ given ih
  | declaratorValue _ _ given ih =>
    exact shaped_plain [false, false, true] (by simp [given.isNode rfl]) rfl rfl (by simpa using ih)
  | computedSlot _ named _ _ given namedIh givenIh =>
    exact shaped_plain [false, true, false, false, true]
      (by simp [named.isNode rfl, given.isNode rfl]) rfl rfl (by simp [namedIh, givenIh])
  | method _ _ head inside headIh insideIh =>
    exact shaped_together [false, false, true, true]
      (by simp [head.isNode rfl, inside.isNode rfl]) rfl
      (by simp [Tree.admitsWithin, Tree.hasLabel, head.parameters_label]) rfl
      (by simp [headIh, insideIh])
  | @block _ _ _ opener closer _ between _ ih =>
    exact shaped_units _ rfl (enclosesNodes_between opener closer between rfl) rfl
      (full_between between rfl) (by simpa using ih)
  | ifStatement _ tested governed _ testedIh governedIh =>
    exact shaped_plain [false, false, true, false, true]
      (by simp [tested.kinds_parentheses, governed.isNode rfl]) rfl rfl (by simp [testedIh, governedIh])
  | ifElseStatement _ tested governed _ alternative testedIh governedIh alternativeIh =>
    exact shaped_plain [false, false, true, false, true, false, true]
      (by simp [tested.kinds_parentheses, governed.isNode rfl, alternative.isNode rfl]) rfl rfl
      (by simp [testedIh, governedIh, alternativeIh])
  | whileStatement _ tested governed testedIh governedIh =>
    exact shaped_plain [false, false, true, false, true]
      (by simp [tested.kinds_parentheses, governed.isNode rfl]) rfl rfl (by simp [testedIh, governedIh])
  | @doWhileStatement _ _ _ _ ending _ _ _ governed _ tested ends governedIh testedIh endsIh =>
    exact shaped_plain ([false, true, false, false, true, false] ++ ending.map (·.isNode))
      (by simp [tested.kinds_parentheses, governed.isNode rfl]) ends.kinds_ending rfl
      (by simp [governedIh, testedIh, endsIh])
  | @localDeclaration _ _ list _ _ _ declared ends declaredIh endsIh =>
    have names : Tree.nodesAre [.declarator] list := declared.nodesAre (by decide)
    refine shaped_together _ rfl rfl ?_ rfl (by simp [declaredIh, endsIh])
    have ending := ends.nodesAre_ending [.declarator]
    simpa [Tree.admitsWithin, nodesAre_append, nodesAre_leaf] using ⟨names, ending⟩
  | @forLocal _ _ list _ _ declared ih =>
    have names : Tree.nodesAre [.declarator] list := declared.nodesAre (by decide)
    refine shaped_together _ rfl rfl ?_ rfl (by simpa using ih)
    simpa [Tree.admitsWithin, nodesAre_leaf] using names
  | @constDeclaration _ _ _ ending _ _ _ _ _ _ given ends givenIh endsIh =>
    exact shaped_plain ([false, false, false, true] ++ ending.map (·.isNode))
      (by simp [given.isNode rfl]) ends.kinds_ending rfl (by simp [Tree.areShaped_head _ ending, givenIh, endsIh])
  | forStatement _ _ starts _ tested _ stepped _ governed startsIh testedIh steppedIh governedIh =>
    have init := shaped_clause starts.forInit_one (starts.nodes rfl) (.inl rfl) startsIh
    have condition :=
      shaped_clause tested.optional_one (tested.nodes rfl) (.inr (.inl rfl)) testedIh
    have step := shaped_clause stepped.optional_one (stepped.nodes rfl) (.inr (.inr rfl)) steppedIh
    exact shaped_plain [false, false, true, false, true, false, true, false, true]
      (by simp [governed.isNode rfl]) rfl rfl (by simp [init, condition, step, governedIh])
  | foreachStatement _ _ named _ iterated _ governed iteratedIh governedIh =>
    have names := shaped_loopNames named
    exact shaped_plain [false, false, true, false, true, false, true]
      (by simp [iterated.isNode rfl, governed.isNode rfl]) rfl rfl (by simp [names, iteratedIh, governedIh])
  | caseBody inside ih =>
    exact shaped_units _ rfl (inside.kinds_all rfl) rfl
      (fun child member _ => inside.members rfl child member) ih
  | caseClause _ compared _ inside comparedIh insideIh =>
    exact shaped_plain [false, true, false, true] (by simp [compared.isNode rfl, inside.isNode rfl])
      rfl rfl (by simp [comparedIh, insideIh])
  | defaultClause _ _ inside ih =>
    exact shaped_plain [false, false, true] (by simp [inside.isNode rfl]) rfl rfl (by simpa using ih)
  | @switchStatement _ _ subject clauses _ opener closer _ tested _ between _ testedIh betweenIh =>
    have inner := enclosesNodes_between opener closer between rfl
    refine shaped_units ([false, false, true, false] ++
      (Tree.leaf opener :: clauses ++ [Tree.leaf closer]).map (·.isNode))
      (by simp [tested.kinds_parentheses]) inner ?_ ?_ (by simp [testedIh, betweenIh])
    · have clausesAre : Tree.nodesAre [.caseClause, .defaultClause] clauses :=
        between.nodesAre (by decide)
      cases tested
      simpa [Tree.admitsWithin, nodesAre_append, nodesAre_leaf] using clausesAre
    intro child member alone
    simp only [List.append_assoc, List.cons_append, List.mem_cons, List.mem_append,
      List.nil_append, List.not_mem_nil, or_false] at member
    rcases member with rfl | asked | rfl | listed | rfl
    · simp
    · cases tested with
      | parentheses _ inside _ =>
        simp only [List.mem_cons, List.not_mem_nil, or_false] at asked
        rcases asked with rfl | rfl | rfl
        · simp
        · exact tokens_ne_nil inside rfl
        · simp
    · simp
    · exact between.members rfl child listed
    · simp
  | tryStatement _ governed _ _ _ _ handled governedIh handledIh =>
    exact shaped_plain [false, true, false, false, false, false, true]
      (by simp [governed.isNode rfl, handled.isNode rfl]) rfl rfl (by simp [governedIh, handledIh])
  | plainName _ goesOn ih | rootedName _ _ goesOn ih =>
    have kinds := goesOn.kinds_namePath
    exact shaped_plain _ rfl kinds rfl (by simpa using ih)
  | functionDeclaration placed _ named head inside _ namedIh headIh insideIh =>
    refine shaped_together _ rfl ?_ ?_ rfl
      (by simp [Tree.areShaped_head _ (List.map _ _), namedIh, headIh, insideIh])
    rotate_left
    · simp [Tree.admitsWithin, filter_leaves, named.isNode rfl, head.isNode rfl, inside.isNode rfl,
        named.functionName_label, head.parameters_label, inside.block_label]
    change decide (List.count true _ = 3)
    simp only [List.map_append, List.count_append, count_leaves]
    simp [named.isNode rfl, head.isNode rfl, inside.isNode rfl]
  | returnNothing _ _ ends ih =>
    refine shaped_plain _ rfl ?_ rfl (by simpa using ih)
    cases ends <;> rfl
  | @returnValue _ _ _ ending _ _ _ given ends givenIh endsIh =>
    exact shaped_plain ([false, true] ++ ending.map (·.isNode)) (by simp [given.isNode rfl])
      ends.kinds_ending rfl (by simp [Tree.areShaped_head _ ending, givenIh, endsIh])
  | breakStatement _ ends ih | continueStatement _ ends ih =>
    exact shaped_plain _ rfl ends.kinds_ending rfl (by simpa using ih)
  | @throwStatement _ _ _ ending _ _ thrown ends thrownIh endsIh =>
    exact shaped_plain ([false, true] ++ ending.map (·.isNode)) (by simp [thrown.isNode rfl])
      ends.kinds_ending rfl (by simp [Tree.areShaped_head _ ending, thrownIh, endsIh])
  | @expressionStatement _ _ _ ending _ evaluated ends evaluatedIh endsIh =>
    exact shaped_plain ([true] ++ ending.map (·.isNode)) (by simp [evaluated.isNode rfl])
      ends.kinds_ending rfl (by simp [Tree.areShaped_head _ ending, evaluatedIh, endsIh])

end Grammar

end Squirrel
