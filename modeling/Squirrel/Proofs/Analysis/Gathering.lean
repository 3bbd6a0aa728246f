import Squirrel.Proofs.Analysis.Timing

/-! What the visit of a node comes across is what the node holds. -/

namespace Squirrel

namespace Tree

/-- The first part of a longer name of a function, which is used and not declared. -/
def pathStart : Tree → List Token
  | .node .functionName (.leaf first :: _ :: _) => if first.kind = .identifier then [first] else []
  | _ => []

/-- Labels of nodes that hold what their children hold. -/
def holdsPlainly : Label → Bool
  | .reference | .newSlot | .member | .functionDeclaration | .hookWrapper | .inheritCall => false
  | _ => true

end Tree

namespace Analysis

open Squirrel.Tree (pathStart holdsPlainly)

/-- Something that trees hold: what comes with a name that is referred to, and with a table that
inherits from a base. A name that a slot is made for, the table that holds the state of an object
and the parameters of hooks are left out, since no visit comes to them. -/
structure Gathering (α : Type) where
  named : Token → List α
  inherited : Tree → Tree → List α
  of : Tree → List α
  leaf : ∀ token, of (.leaf token) = []
  plain : ∀ {label children}, holdsPlainly label →
    of (.node label children) = children.flatMap of
  reference : ∀ name, of (.node .reference [.leaf name]) = named name
  newSlot : ∀ {target sign value}, target.isMade → of (.node .newSlot [target, .leaf sign, value]) =
    (if target.hasLabel .reference then [] else of target) ++ of value
  member : ∀ {object dot name}, object.isMade →
    of (.node .member [object, .leaf dot, .leaf name]) =
      if object.hasLabel .reference ∧ object.identifier? = some stateTable then [] else of object
  functionDeclaration : ∀ children, of (.node .functionDeclaration children) =
    (children.flatMap pathStart).flatMap named ++ children.flatMap of
  hookWrapper : ∀ {sign list function}, of (.node .hookWrapper [sign, list, function]) = of function
  inheritCall : ∀ {called list base body}, list.subtrees = [base, body] →
    of (.node .inheritCall [called, list]) = of called ++ of list ++ inherited base body

attribute [simp] Gathering.leaf

variable {α : Type} (gathering : Gathering α) {tree : Tree} {trees children : List Tree}
  {label : Label}

theorem part_made (made : (Tree.node label children).isMade) {labels : List Label}
    (parts : label.parts = labels) {child : Tree} (member : child ∈ children)
    (isNode : child.isNode) : ∃ own ∈ labels, child.label? = some own :=
  part_labelled (Bool.and_eq_true_iff.mp made).2 parts member isNode

namespace Gathering

def all (trees : List Tree) : List α := trees.flatMap gathering.of

@[simp] theorem all_nil : gathering.all [] = [] := rfl

@[simp] theorem all_cons (tree : Tree) (trees : List Tree) :
    gathering.all (tree :: trees) = gathering.of tree ++ gathering.all trees := List.flatMap_cons

@[simp] theorem of_token (isToken : tree.isNode = false) : gathering.of tree = [] := by
  obtain ⟨token, rfl⟩ := Tree.leaf_of_isNode isToken
  exact gathering.leaf token

theorem all_tokens (tokens : ∀ tree ∈ trees, tree.isNode = false) : gathering.all trees = [] :=
  List.flatMap_eq_nil_iff.mpr fun tree member => gathering.of_token (tokens tree member)

theorem all_nodes (trees : List Tree) :
    gathering.all (trees.filter (·.isNode)) = gathering.all trees := by
  induction trees with
  | nil => rfl
  | cons tree trees ih =>
    cases isNode : tree.isNode with
    | false => rw [List.filter_cons_of_neg (by simp [isNode]), ih, all_cons, of_token _ isNode,
        List.nil_append]
    | true => rw [List.filter_cons_of_pos isNode, all_cons, all_cons, ih]

theorem all_ending (ends : isEnding (trees.map (·.isNode))) : gathering.all trees = [] := by
  refine gathering.all_tokens fun tree member => ?_
  rcases trees with _ | ⟨last, _ | ⟨more, rest⟩⟩
  · cases member
  · rw [List.mem_singleton.mp member]
    cases isNode : last.isNode with
    | false => rfl
    | true => simp [isEnding, isNode] at ends
  · simp [isEnding] at ends

theorem all_children (isOwn : tree.hasLabel label) (plain : holdsPlainly label) :
    gathering.all tree.children = gathering.of tree := by
  have labelled : tree.label? = some label := of_decide_eq_true isOwn
  obtain ⟨inner, rfl⟩ := Tree.node_of_label labelled
  exact (gathering.plain plain).symm

theorem of_plain (plain : holdsPlainly label) (children : List Tree) :
    gathering.of (.node label children) = gathering.all children :=
  gathering.plain plain

/-- A node that is made of tokens holds nothing, names apart. -/
theorem all_bare (made : (Tree.node label children).isMade) (bare : label.parts = []) :
    gathering.all children = [] := by
  refine gathering.all_tokens fun child member => ?_
  cases isNode : child.isNode with
  | false => rfl
  | true =>
    obtain ⟨own, listed, -⟩ := part_made made bare member isNode
    cases listed

theorem of_bare (made : tree.isMade) (isOwn : tree.hasLabel label) (bare : label.parts = [])
    (plain : holdsPlainly label) : gathering.of tree = [] := by
  have labelled : tree.label? = some label := of_decide_eq_true isOwn
  obtain ⟨inner, rfl⟩ := Tree.node_of_label labelled
  rw [gathering.of_plain plain, gathering.all_bare made bare]

end Gathering

mutual

@[simp] def Act.gathered (gathering : Gathering α) : Act → List α
  | .walk tree => gathering.of tree
  | .refer name _ _ _ => gathering.named name
  | .bind _ _ _ value? => gathering.all value?.toList
  | .within _ _ acts => gatheredOf gathering acts
  | .declare _ _ _ | .excuse _ | .recover _ | .fail _ => []

def gatheredOf (gathering : Gathering α) : List Act → List α
  | [] => []
  | act :: acts => act.gathered gathering ++ gatheredOf gathering acts

end

@[simp] theorem gatheredOf_nil : gatheredOf gathering [] = [] := rfl

@[simp] theorem gatheredOf_cons (act : Act) (acts : List Act) :
    gatheredOf gathering (act :: acts) = act.gathered gathering ++ gatheredOf gathering acts := rfl

@[simp] theorem gatheredOf_append (first second : List Act) :
    gatheredOf gathering (first ++ second) =
      gatheredOf gathering first ++ gatheredOf gathering second := by
  induction first with
  | nil => rfl
  | cons act first ih => simp [ih]

theorem gatheredOf_flatMap {acts : Tree → List Act}
    (each : ∀ tree ∈ trees, gatheredOf gathering (acts tree) = gathering.of tree) :
    gatheredOf gathering (trees.flatMap acts) = gathering.all trees := by
  induction trees with
  | nil => rfl
  | cons tree trees ih =>
    obtain ⟨first, others⟩ := List.forall_mem_cons.mp each
    rw [List.flatMap_cons, gatheredOf_append, first, ih others, gathering.all_cons]

theorem gatheredOf_map {act : Tree → Act}
    (each : ∀ tree ∈ trees, (act tree).gathered gathering = gathering.of tree) :
    gatheredOf gathering (trees.map act) = gathering.all trees := by
  have single : gatheredOf gathering (trees.flatMap fun tree => [act tree]) = gathering.all trees :=
    gatheredOf_flatMap gathering fun tree member => by simp [each tree member]
  rwa [← List.map_eq_flatMap] at single

@[simp] theorem gatheredOf_walks (trees : List Tree) :
    gatheredOf gathering (trees.map .walk) = gathering.all trees :=
  gatheredOf_map gathering fun _ _ => by rw [Act.gathered]

@[simp] theorem gathered_body (tree : Tree) :
    gatheredOf gathering (bodyActs tree) = gathering.of tree := by
  unfold bodyActs
  split
  · rw [gatheredOf_walks, gathering.of_plain rfl]
  · simp

@[simp] theorem gathered_nested (tree : Tree) :
    (nestedAct tree).gathered gathering = gathering.of tree := by
  rw [nestedAct, Act.gathered, gathered_body]

@[simp] theorem gatheredOf_nested (trees : List Tree) :
    gatheredOf gathering (trees.map nestedAct) = gathering.all trees :=
  gatheredOf_map gathering fun tree _ => gathered_nested gathering tree

theorem all_value
    (shape : children.map (·.isNode) = [] ∨ children.map (·.isNode) = [false, true]) :
    gathering.all (valueOf? children).toList = gathering.all children := by
  rcases children with _ | ⟨sign, _ | ⟨value, _ | ⟨more, rest⟩⟩⟩
  · simp [valueOf?]
  · simp at shape
  · have isToken : sign.isNode = false := by simp_all
    simp [valueOf?, isToken]
  · simp at shape

/-- A name, and perhaps a sign and a value behind it. -/
theorem named_made (made : (Tree.node label children).isMade)
    (isNamed : label = .parameter ∨ label = .declarator) :
    ∃ name rest, children = .leaf name :: rest ∧
      (rest.map (·.isNode) = [] ∨ rest.map (·.isNode) = [false, true]) := by
  have fitting := Tree.admits_of_isMade made
  simp only [Tree.admits, Bool.and_eq_true] at fitting
  have kinds : children.map (·.isNode) = [false] ∨ children.map (·.isNode) = [false, false, true] := by
    rcases isNamed with rfl | rfl <;> simpa [Label.fits] using fitting.1
  rcases children with _ | ⟨first, rest⟩
  · simp at kinds
  · have isToken : first.isNode = false := by rcases kinds with kinds | kinds <;> simp_all
    obtain ⟨name, rfl⟩ := Tree.leaf_of_isNode isToken
    exact ⟨name, rest, rfl, by rcases kinds with kinds | kinds <;> simp_all⟩

theorem gathered_parameter (made : tree.isMade) (isParameter : tree.label? = some .parameter) :
    gatheredOf gathering (parameterActs tree) = gathering.of tree := by
  obtain ⟨children, rfl⟩ := Tree.node_of_label isParameter
  obtain ⟨name, rest, rfl, kinds⟩ := named_made made (.inl rfl)
  have declares : gatheredOf gathering (if name.kind = .identifier then
      [.declare .here name .parameter] else []) = [] := by
    split <;> simp
  rw [parameterActs, gathering.of_plain rfl]
  simp only [Tree.children, gatheredOf_append, declares, gatheredOf_walks,
    all_value gathering kinds, gathering.all_cons, gathering.leaf]

theorem gathered_variable (made : tree.isMade) (isDeclarator : tree.label? = some .declarator) :
    (variableAct tree).gathered gathering = gathering.of tree := by
  obtain ⟨children, rfl⟩ := Tree.node_of_label isDeclarator
  obtain ⟨name, rest, rfl, kinds⟩ := named_made made (.inr rfl)
  rw [variableAct, gathering.of_plain rfl]
  simp only [Tree.children, Act.gathered, all_value gathering kinds, gathering.all_cons,
    gathering.leaf, List.nil_append]

theorem gathered_function {body : Tree} (made : tree.isMade)
    (isList : tree.label? = some .parameters) (hook? : Option Token) :
    (functionAct tree body hook?).gathered gathering = gathering.of tree ++ gathering.of body := by
  have hooked : gatheredOf gathering
      (hook?.toList.map fun hook => .declare .here hook .hookParameter) = [] := by
    cases hook? <;> simp
  obtain ⟨children, rfl⟩ := Tree.node_of_label isList
  have parameters : gatheredOf gathering
      ((Tree.node .parameters children).subtrees.flatMap parameterActs) =
        gathering.all children := by
    rw [← gathering.all_nodes children]
    refine gatheredOf_flatMap gathering fun parameter member => ?_
    obtain ⟨inside, isNode⟩ := List.mem_filter.mp member
    obtain ⟨own, listed, isOwn⟩ := part_made made rfl inside isNode
    obtain rfl := List.mem_singleton.mp listed
    exact gathered_parameter gathering (Tree.children_made made parameter inside) isOwn
  rw [functionAct, Act.gathered, gatheredOf_append, hooked, gatheredOf_append, parameters,
    gathered_body, gathering.of_plain rfl, List.nil_append]

theorem gathered_functionName (made : tree.isMade) (isName : tree.label? = some .functionName)
    (isLocal : Bool) : gatheredOf gathering (functionNameActs isLocal tree) =
      (pathStart tree).flatMap gathering.named := by
  obtain ⟨children, rfl⟩ := Tree.node_of_label isName
  have fitting := Tree.admits_of_isMade made
  simp only [Tree.admits, Label.fits, Bool.and_eq_true] at fitting
  rcases children with _ | ⟨first, rest⟩
  · simp at fitting
  · obtain ⟨name, rfl⟩ : ∃ name, first = .leaf name := Tree.leaf_of_isNode (by simp_all)
    rcases rest with _ | ⟨second, rest⟩
    · simp [functionNameActs, pathStart]
    · rw [pathStart, functionNameActs]
      · split <;> simp
      · simp

theorem gathered_functionDeclaration (made : (Tree.node .functionDeclaration children).isMade) :
    gatheredOf gathering (functionDeclarationActs children) =
      gathering.of (.node .functionDeclaration children) := by
  have fitting := Tree.admits_of_isMade made
  simp only [Tree.admits, Bool.and_eq_true, Tree.admitsWithin, decide_eq_true_eq] at fitting
  have labels := fitting.2
  have starts : children.flatMap pathStart = (children.filter (·.isNode)).flatMap pathStart := by
    clear made fitting labels
    induction children with
    | nil => rfl
    | cons child children ih =>
      cases child with
      | leaf token =>
        rw [List.filter_cons_of_neg (by simp [Tree.isNode, Tree.isLeaf]), List.flatMap_cons, ih]
        rfl
      | node label inner => rw [List.filter_cons_of_pos rfl, List.flatMap_cons, List.flatMap_cons, ih]
  have inside : ∀ child ∈ children.filter (·.isNode), child.isMade :=
    fun child member => Tree.children_made made child (List.mem_filter.mp member).1
  rw [gathering.functionDeclaration, ← Gathering.all, starts, ← gathering.all_nodes,
    functionDeclarationActs]
  generalize children.filter (·.isNode) = nodes at labels inside ⊢
  rcases nodes with _ | ⟨name, _ | ⟨list, _ | ⟨body, _ | ⟨more, rest⟩⟩⟩⟩
  all_goals simp only [List.map_cons, List.map_nil, List.cons.injEq, reduceCtorEq, and_false] at labels
  obtain ⟨isName, isList, isBody, -⟩ := labels
  have named : gathering.of name = [] :=
    gathering.of_bare (inside _ (by simp)) (decide_eq_true isName) rfl rfl
  have unnamed (tree : Tree) (other : tree.label? ≠ some .functionName) : pathStart tree = [] := by
    unfold pathStart
    split
    · exact absurd rfl other
    · rfl
  simp only [gatheredOf_append, gatheredOf_cons, gatheredOf_nil, List.append_nil,
    gathered_functionName gathering (inside _ (by simp)) isName,
    gathered_function gathering (inside _ (by simp)) isList, List.flatMap_cons, List.flatMap_nil,
    unnamed list (by rw [isList]; decide), unnamed body (by rw [isBody]; decide),
    gathering.all_cons, gathering.all_nil, named, List.nil_append]

theorem gathered_foreachNames (names : List Tree) :
    gatheredOf gathering (names.flatMap foreachNameActs) = [] := by
  induction names with
  | nil => rfl
  | cons name names ih =>
    have own : gatheredOf gathering (foreachNameActs name) = [] := by
      unfold foreachNameActs
      split
      · split <;> simp
      · rfl
    rw [List.flatMap_cons, gatheredOf_append, ih, own, List.append_nil]

theorem gathered_switchClause (made : tree.isMade)
    (isClause : tree.label? = some .caseClause ∨ tree.label? = some .defaultClause) :
    gatheredOf gathering (switchClauseActs tree) = gathering.of tree := by
  have composed := (Bool.and_eq_true_iff.mp made).2
  rcases isClause with isCase | isDefault
  · obtain ⟨children, rfl⟩ := Tree.node_of_label isCase
    obtain ⟨word, isWord, value, -, colon, isColon, body, -, rfl⟩ :=
      itemized (of_decide_eq_true (Bool.and_eq_true_iff.mp (Tree.admits_of_isMade made)).1)
    simp only [Tree.everywhere_node, Tree.isComposed, Bool.and_eq_true] at composed
    have isBody : body.hasLabel .caseBody := composed.1.2
    rw [switchClauseActs, gathering.of_plain rfl]
    simp [isWord, isColon, gathering.all_children isBody rfl]
  · obtain ⟨children, rfl⟩ := Tree.node_of_label isDefault
    obtain ⟨word, isWord, colon, isColon, body, isNode, rfl⟩ :=
      itemized (of_decide_eq_true (Bool.and_eq_true_iff.mp (Tree.admits_of_isMade made)).1)
    obtain ⟨own, listed, isBody⟩ := part_made made rfl (by simp : body ∈ _) isNode
    obtain rfl := List.mem_singleton.mp listed
    rw [switchClauseActs, gathering.of_plain rfl]
    simp [isWord, isColon, gathering.all_children (decide_eq_true isBody) rfl]

theorem MeetsName.gathered {act : Tree → Act} (meets : MeetsName act) (tree : Tree) :
    (act tree).gathered gathering = gathering.of tree := by
  rcases meets tree with walks | ⟨name, _, _, _, rfl, refers⟩
  · rw [walks, Act.gathered]
  · rw [refers, Act.gathered, gathering.reference]

/-- The nodes that do not just hold what their children hold. -/
inductive Special : Label → List Tree → Prop
  | reference (name : Token) : Special .reference [.leaf name]
  | newSlot (target : Tree) (sign : Token) (value : Tree) :
    Special .newSlot [target, .leaf sign, value]
  | member (object : Tree) (dot name : Token) : Special .member [object, .leaf dot, .leaf name]
  | functionDeclaration (children : List Tree) : Special .functionDeclaration children
  | hookWrapper (sign : Token) (list function : Tree) :
    Special .hookWrapper [.leaf sign, list, function]
  | inheritCall (called list : Tree) : Special .inheritCall [called, list]

theorem special_made (made : (Tree.node label children).isMade)
    (special : holdsPlainly label = false) : Special label children := by
  obtain ⟨kinds, -⟩ := Bool.and_eq_true_iff.mp (Tree.admits_of_isMade made)
  cases label
  case reference =>
    obtain ⟨name, isName, rfl⟩ := itemized (of_decide_eq_true kinds)
    obtain ⟨name, rfl⟩ := Tree.leaf_of_isNode isName
    exact .reference name
  case newSlot =>
    obtain ⟨target, -, sign, isSign, value, -, rfl⟩ := itemized (of_decide_eq_true kinds)
    obtain ⟨sign, rfl⟩ := Tree.leaf_of_isNode isSign
    exact .newSlot target sign value
  case member =>
    obtain ⟨object, -, dot, isDot, name, isName, rfl⟩ := itemized (of_decide_eq_true kinds)
    obtain ⟨dot, rfl⟩ := Tree.leaf_of_isNode isDot
    obtain ⟨name, rfl⟩ := Tree.leaf_of_isNode isName
    exact .member object dot name
  case functionDeclaration => exact .functionDeclaration children
  case hookWrapper =>
    obtain ⟨sign, isSign, list, -, function, -, rfl⟩ := itemized (of_decide_eq_true kinds)
    obtain ⟨sign, rfl⟩ := Tree.leaf_of_isNode isSign
    exact .hookWrapper sign list function
  case inheritCall =>
    obtain ⟨called, -, list, -, rfl⟩ := itemized (of_decide_eq_true kinds)
    exact .inheritCall called list
  all_goals cases special

theorem gathered_newSlot {target value : Tree} {sign : Token}
    (made : (Tree.node .newSlot [target, .leaf sign, value]).isMade) :
    (gatheredOf gathering (newSlotActs target value)).Perm
      (gathering.of (.node .newSlot [target, .leaf sign, value])) := by
  have own := Tree.children_made made target (by simp)
  rw [gathering.newSlot own]
  unfold newSlotActs
  split
  · simp [Tree.hasLabel, Tree.label?]
  · have bare := gathering.of_bare own (decide_eq_true rfl) rfl rfl
    simp [bare]
  · next noReference _ =>
    have noName : target.hasLabel .reference = false := by
      refine decide_eq_false fun isReference => ?_
      obtain ⟨inner, rfl⟩ := Tree.node_of_label isReference
      cases special_made own rfl with
      | reference name => exact noReference name rfl
    simpa [noName] using List.perm_append_comm

theorem gathered_hook (made : (Tree.node .hookWrapper children).isMade) :
    gatheredOf gathering (plainActs .hookWrapper children) =
      gathering.of (.node .hookWrapper children) := by
  have shaped := (Bool.and_eq_true_iff.mp made).1
  obtain ⟨sign, list, keyword, inner, body, rfl, isInner⟩ := hook_shape shaped
  have function := Tree.children_made made (.node .functionLiteral [keyword, inner, body]) (by simp)
  have kinds := Tree.admits_of_isMade function
  simp only [Tree.admits, Label.fits, Bool.and_eq_true, decide_eq_true_eq, List.map_cons,
    List.map_nil, List.cons.injEq] at kinds
  have isToken : keyword.isNode = false := kinds.1.1
  obtain ⟨hook, named⟩ := hook_named shaped
  simp only [plainActs, named, gatheredOf_cons, gatheredOf_nil, List.append_nil,
    gathered_function gathering (Tree.children_made function inner (by simp)) isInner]
  rw [gathering.hookWrapper, gathering.of_plain rfl]
  simp [isToken]

/-- The acts for a node of most labels come across what its children hold. -/
theorem gathered_plainly (made : (Tree.node label children).isMade) (plain : holdsPlainly label)
    (noTable : label ≠ .table) :
    (gatheredOf gathering (plainActs label children)).Perm (gathering.all children) := by
  obtain ⟨kinds, within⟩ := Bool.and_eq_true_iff.mp (Tree.admits_of_isMade made)
  have composed := (Bool.and_eq_true_iff.mp made).2
  simp only [Tree.everywhere_node, Tree.isComposed, Bool.and_eq_true] at composed
  have child := Tree.children_made made
  unfold plainActs
  split
  · simp
  · simp
  · rw [gathering.all_bare made rfl]
    simp
  · rw [gatheredOf_map gathering fun child member => ?_]
    · rw [gathering.all_nodes]
    · obtain ⟨inside, isNode⟩ := List.mem_filter.mp member
      obtain ⟨own, listed, isOwn⟩ := part_made made rfl inside isNode
      obtain rfl := List.mem_singleton.mp listed
      exact gathered_variable gathering (Tree.children_made made _ inside) isOwn
  · simp [Label.fits, endsAfter] at kinds
    simp [kinds, gathering.all_ending kinds.2]
  · cases plain
  · next rest =>
    have shape : rest.map (·.isNode) = [] ∨ rest.map (·.isNode) = [false, true] := by
      simp [Label.fits] at kinds
      rcases kinds with kinds | kinds <;> simp [kinds]
    simp only [gatheredOf_cons, gatheredOf_nested, all_value gathering shape, Act.gathered,
      gathered_nested]
    simp [Label.fits] at kinds
    rcases kinds with kinds | kinds <;> simp [kinds]
  · simp [Label.fits] at kinds
    simp [kinds]
  · next rest =>
    have shape : gathering.all rest = [] := by
      rcases rest with _ | ⟨closer, ending⟩
      · rfl
      · simp [Label.fits, endsAfter] at kinds
        simp [kinds, gathering.all_ending kinds.2]
    simp [Label.fits, endsAfter] at kinds
    simp [kinds, shape]
  · simp only [Tree.areOrdered, Bool.and_eq_true] at composed
    obtain ⟨⟨-, isInit, isCondition, isStep⟩, -⟩ := composed
    simp [Label.fits] at kinds
    simp [kinds, gathering.all_children isInit rfl, gathering.all_children isCondition rfl,
      gathering.all_children isStep rfl]
  · simp only [Tree.areOrdered] at composed
    simp [Label.fits] at kinds
    have bare := gathering.of_bare (child _ (by simp)) composed.1.2 rfl rfl
    simp [kinds, gathered_foreachNames, bare]
  · have clauses := clauses_of_fits (Tree.admits_of_isMade made)
    rw [gatheredOf_cons, gatheredOf_cons, Act.gathered, Act.gathered,
      gatheredOf_flatMap gathering fun clause member => ?_]
    · simp [Label.fits] at kinds
      simp [kinds, gathering.all_nodes]
    · have inside := (List.mem_filter.mp member).1
      exact gathered_switchClause gathering (child clause (by simp [inside])) (clauses clause member)
  · simp [Label.fits] at kinds
    simp [kinds]
  · cases plain
  · simp [(update_meets _).gathered]
  · simp [(update_meets _).gathered]
  · simp [(target_meets _).gathered]
    exact List.perm_append_comm
  · cases plain
  · cases plain
  · simp [callee_meets.gathered]
  · simp [Label.fits] at kinds
    have isList := of_decide_eq_true within
    simp [kinds, gathered_function gathering (child _ (by simp)) isList]
  · simp [Label.fits] at kinds
    have isList := of_decide_eq_true within
    simp [kinds, gathered_function gathering (child _ (by simp)) isList]
  · cases plain
  case h_31 => simp [gathering.all_nodes]
  all_goals rw [gathering.all_bare made rfl, gatheredOf_nil]

def Filling.gathered (gathering : Gathering α) : Filling → List α
  | .acts own => gatheredOf gathering own
  | .value tree => gathering.of tree

theorem gathered_filling (made : tree.isMade)
    (isEntry : ∃ label ∈ Tree.entryLabels, tree.label? = some label) :
    (filling tree).gathered gathering = gathering.of tree := by
  obtain ⟨own, listed, isOwn⟩ := isEntry
  obtain ⟨children, rfl⟩ := Tree.node_of_label isOwn
  obtain ⟨kinds, within⟩ := Bool.and_eq_true_iff.mp (Tree.admits_of_isMade made)
  simp only [Tree.entryLabels, List.mem_cons, List.not_mem_nil, or_false] at listed
  have shape : gathering.all children = (filling (.node own children)).gathered gathering := by
    rcases listed with rfl | rfl | rfl | rfl | rfl
    case inr.inr.inr.inr => exact gathering.all_bare made rfl
    case inr.inr.inl =>
      rcases children with _ | ⟨_, _ | ⟨key, _ | ⟨_, _ | ⟨_, _ | ⟨value, _ | _⟩⟩⟩⟩⟩
      all_goals simp [Label.fits] at kinds
      simp [filling, Filling.gathered, kinds]
    case inr.inr.inr.inl =>
      rcases children with _ | ⟨_, _ | ⟨_, _ | ⟨list, _ | ⟨body, _ | _⟩⟩⟩⟩
      all_goals simp [Label.fits] at kinds
      have isList := of_decide_eq_true within
      simp [filling, Filling.gathered, kinds,
        gathered_function gathering (Tree.children_made made list (by simp)) isList]
    all_goals
      rcases children with _ | ⟨_, _ | ⟨_, _ | ⟨value, _ | _⟩⟩⟩
      all_goals simp [Label.fits] at kinds
      simp [filling, Filling.gathered, kinds]
  rw [← shape, gathering.of_plain]
  rcases listed with rfl | rfl | rfl | rfl | rfl <;> rfl

def Ending.gathered (gathering : Gathering α) : Ending → List α
  | .nothing => []
  | .value tree => gathering.of tree
  | .table entries => gathering.all entries
  | .inherit base body => gathering.of body ++ gathering.inherited base body

def Script.gathered (gathering : Gathering α) (script : Script) : List α :=
  gatheredOf gathering script.acts ++ script.ending.gathered gathering

theorem gathered_inherit {called list : Tree} (made : (Tree.node .inheritCall [called, list]).isMade) :
    (script .inheritCall [called, list]).gathered gathering =
      gathering.of (.node .inheritCall [called, list]) := by
  have composed := (Bool.and_eq_true_iff.mp made).2
  simp only [Tree.everywhere_node, Tree.isComposed, Tree.areOrdered, Bool.and_eq_true] at composed
  obtain ⟨base, body, parts, -⟩ :=
    inherit_parts (Bool.and_eq_true_iff.mp (Tree.admits_of_isMade made)).2
  have given : gathering.all list.subtrees = gathering.of list :=
    (gathering.all_nodes _).trans (gathering.all_children composed.1.2 rfl)
  rw [gathering.inheritCall parts, ← given]
  simp [script, parts, Script.gathered, Ending.gathered, callee_meets.gathered]

/-- The visit of a node comes across what the node holds. -/
theorem gathered_script (made : (Tree.node label children).isMade) :
    ((script label children).gathered gathering).Perm (gathering.of (.node label children)) := by
  cases plain : holdsPlainly label with
  | true =>
    have kinds := (Bool.and_eq_true_iff.mp (Tree.admits_of_isMade made)).1
    rw [gathering.of_plain plain]
    unfold script
    split
    · simp [Label.fits] at kinds
      simp [Script.gathered, Ending.gathered, kinds]
    · simp [Script.gathered, Ending.gathered, gathering.all_nodes]
    · cases plain
    · simp only [Script.gathered, Ending.gathered, List.append_nil]
      exact gathered_plainly gathering made plain ‹_›
  | false =>
    cases special_made made plain with
    | reference name => simp [script, plainActs, Script.gathered, Ending.gathered, gathering.reference]
    | newSlot target sign value =>
      simpa [script, plainActs, Script.gathered, Ending.gathered] using gathered_newSlot gathering made
    | member object dot name =>
      rw [gathering.member (Tree.children_made made object (by simp))]
      simp only [script, plainActs, Script.gathered, Ending.gathered, List.append_nil]
      split <;> simp
    | functionDeclaration =>
      rw [← gathered_functionDeclaration gathering made]
      simp [script, plainActs, Script.gathered, Ending.gathered]
    | hookWrapper sign list function =>
      rw [← gathered_hook gathering made]
      simp [script, Script.gathered, Ending.gathered]
    | inheritCall called list => rw [gathered_inherit gathering made]

end Analysis

end Squirrel
