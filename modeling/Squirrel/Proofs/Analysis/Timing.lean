import Squirrel.Proofs.Analysis.Likeness

/-! The code of a function runs later than the code around it. -/

namespace Squirrel

def Tree.isMade (tree : Tree) : Bool := tree.isShaped && tree.everywhere isComposed

variable {label : Label} {tree : Tree} {children : List Tree}

theorem Tree.children_made (made : (node label children).isMade) :
    ∀ child ∈ children, child.isMade := by
  obtain ⟨shaped, composed⟩ := Bool.and_eq_true_iff.mp made
  rw [everywhere_node, Bool.and_eq_true, everywhereOf_iff] at composed
  exact fun child member =>
    Bool.and_eq_true_iff.mpr ⟨children_shaped shaped child member, composed.2 child member⟩

theorem Tree.admits_of_isMade (made : (node label children).isMade) : admits label children :=
  admits_of_isShaped (Bool.and_eq_true_iff.mp made).1

namespace Analysis

def isFunction : Label → Bool
  | .functionDeclaration | .functionLiteral | .lambdaLiteral | .tableMethod => true
  | _ => false

/-- Whether a child of a node is the parameters or the body of a function, which runs later. -/
def runsLater (label : Label) (child : Tree) : Bool :=
  isFunction label && child.label?.any (· ≠ .functionName)

end Analysis

open Analysis (isFunction runsLater)

mutual

def Tree.timed (late : Bool) : Tree → List (Token × Bool)
  | .leaf token => [(token, late)]
  | .node label children => timedOf label late children

def timedOf (label : Label) (late : Bool) : List Tree → List (Token × Bool)
  | [] => []
  | child :: children =>
    child.timed (runsLater label child || late) ++ timedOf label late children

end

theorem timed_child {late : Bool} {child : Tree} (member : child ∈ children) :
    child.timed (runsLater label child || late) ⊆ (Tree.node label children).timed late := by
  change _ ⊆ timedOf label late children
  induction children with
  | nil => cases member
  | cons first children ih =>
    rw [timedOf]
    rcases List.mem_cons.mp member with rfl | later
    · exact List.subset_append_left _ _
    · exact List.subset_append_of_subset_right _ (ih later)

namespace Analysis

/-- A tree that is well made is like itself. Methods stand only in tables. -/
structure Made (tree other : Tree) : Prop where
  same : other = tree
  made : tree.isMade
  noMethod : tree.label? ≠ some .tableMethod

theorem made_part (plain : label ≠ .table) (made : (Tree.node label children).isMade) :
    ∀ child ∈ children, Made child child := by
  intro child member
  refine ⟨rfl, Tree.children_made made child member, fun isMethod => ?_⟩
  have part := part_of_composed (Bool.and_eq_true_iff.mp made).2 (· ≠ .tableMethod)
    (by cases label <;> first | rfl | exact absurd rfl plain) child member
  simp [isMethod] at part

theorem tracks_made : Tracks Made := by
  refine .of_children (fun like => like.same) (fun {label children tree} like => ?_)
    (fun like => (Bool.and_eq_true_iff.mp like.made).2)
    (fun like => (Bool.and_eq_true_iff.mp like.made).1)
  obtain ⟨rfl, made, -⟩ := like
  exact ⟨children, rfl, fun plain => List.forall₂_same.mpr (made_part plain made)⟩

section Timing

variable {marks : List (Token × Bool)} {late : Bool}

mutual

@[simp] def Act.IsTimed (marks : List (Token × Bool)) (late : Bool) : Act → Prop
  | .walk tree => tree.timed late ⊆ marks
  | .refer name _ _ _ => (name, late) ∈ marks
  | .bind _ _ _ value? => ∀ value ∈ value?, value.timed late ⊆ marks
  | .within _ later acts => AreTimed marks (later || late) acts
  | .declare _ _ _ | .excuse _ | .recover _ | .fail _ => True

@[simp] def AreTimed (marks : List (Token × Bool)) (late : Bool) : List Act → Prop
  | [] => True
  | act :: acts => act.IsTimed marks late ∧ AreTimed marks late acts

end

theorem areTimed_iff {acts : List Act} :
    AreTimed marks late acts ↔ ∀ act ∈ acts, act.IsTimed marks late := by
  induction acts with
  | nil => simp
  | cons act acts ih => simp [ih]

@[simp] theorem areTimed_append {first second : List Act} :
    AreTimed marks late (first ++ second) ↔ AreTimed marks late first ∧ AreTimed marks late second := by
  simp only [areTimed_iff, List.forall_mem_append]

@[simp] theorem areTimed_map {act : Tree → Act} :
    AreTimed marks late (children.map act) ↔
      ∀ child ∈ children, (act child).IsTimed marks late := by
  rw [areTimed_iff, List.forall_mem_map]

@[simp] theorem areTimed_flatMap {acts : Tree → List Act} :
    AreTimed marks late (children.flatMap acts) ↔
      ∀ child ∈ children, AreTimed marks late (acts child) := by
  simp only [areTimed_iff, List.forall_mem_flatMap]

section

variable (held : tree.timed late ⊆ marks)

include held

theorem timed_inside (prompt : tree.label?.any isFunction = false) :
    ∀ child ∈ tree.children, child.timed late ⊆ marks := by
  intro child member
  cases tree with
  | leaf token => cases member
  | node label children =>
    have noFunction : isFunction label = false := by simpa [Tree.label?] using prompt
    simpa [runsLater, noFunction] using List.Subset.trans (timed_child member) held

theorem timed_labelled (isOwn : tree.hasLabel label) (prompt : isFunction label = false) :
    ∀ child ∈ tree.children, child.timed late ⊆ marks :=
  timed_inside held (by simp [of_decide_eq_true isOwn, prompt])

omit held in
theorem timed_leaf {token : Token} (held : (Tree.node label children).timed late ⊆ marks)
    (member : .leaf token ∈ children) : (token, late) ∈ marks :=
  held (timed_child member (by simp [runsLater, Tree.timed, Tree.label?]))

theorem timed_body : AreTimed marks late (bodyActs tree) := by
  unfold bodyActs
  split
  · simpa [Tree.children] using timed_inside held rfl
  · simpa using held

theorem timed_nested : (nestedAct tree).IsTimed marks late :=
  timed_body held

omit held in
theorem timed_value (held : ∀ child ∈ children, child.timed late ⊆ marks) :
    ∀ value ∈ valueOf? children, value.timed late ⊆ marks := by
  unfold valueOf?
  split <;> simp_all

theorem timed_parameter (isParameter : tree.label? = some .parameter) :
    AreTimed marks late (parameterActs tree) := by
  have below := timed_inside held (by simp [isParameter, isFunction])
  unfold parameterActs
  split
  · next name rest own =>
    rw [own, List.forall_mem_cons] at below
    refine areTimed_append.mpr ⟨by split <;> simp, ?_⟩
    simpa using timed_value below.2
  · simp

omit held in
theorem timed_function {body : Tree} (made : Made tree tree)
    (isList : tree.label? = some .parameters) (listed : tree.timed true ⊆ marks)
    (held : body.timed true ⊆ marks) (hook? : Option Token) :
    (functionAct tree body hook?).IsTimed marks late := by
  have below := timed_inside listed (by simp [isList, isFunction])
  obtain ⟨children, rfl⟩ := Tree.node_of_label isList
  have parameters := tracks_made.only made rfl
  simp only [functionAct, Act.IsTimed, Bool.true_or, areTimed_append, areTimed_flatMap]
  refine ⟨by cases hook? <;> simp, fun parameter member => ?_, timed_body held⟩
  exact timed_parameter (below _ (List.mem_filter.mp member).1) (parameters _ member)

theorem timed_variable (isDeclarator : tree.label? = some .declarator) :
    (variableAct tree).IsTimed marks late := by
  have below := timed_inside held (by simp [isDeclarator, isFunction])
  unfold variableAct
  split
  · next name rest own =>
    rw [own, List.forall_mem_cons] at below
    exact timed_value below.2
  · simp

theorem timed_functionName (isLocal : Bool) :
    AreTimed marks late (functionNameActs isLocal tree) := by
  unfold functionNameActs
  split
  · simp
  · split
    · simpa using timed_leaf held (by simp)
    · simp
  · simp

theorem MeetsName.timed {act : Tree → Act} (meets : MeetsName act) :
    (act tree).IsTimed marks late := by
  rcases meets tree with walks | ⟨name, _, _, _, rfl, refers⟩
  · simpa [walks] using held
  · simpa [refers] using timed_leaf held (by simp)

omit held in
theorem timed_foreachName (name : Tree) : AreTimed marks late (foreachNameActs name) := by
  unfold foreachNameActs
  split
  · split <;> simp
  · simp

theorem timed_newSlot {value : Tree} (given : value.timed late ⊆ marks) :
    AreTimed marks late (newSlotActs tree value) := by
  unfold newSlotActs
  split <;> simp [held, given]

end

theorem timed_switchClause (made : Made tree tree) (held : tree.timed late ⊆ marks) :
    AreTimed marks late (switchClauseActs tree) := by
  have composed := tracks_made.composed made
  unfold switchClauseActs
  split
  · simp only [Tree.everywhere_node, Tree.isComposed, Bool.and_eq_true] at composed
    have below := timed_inside held rfl
    simp only [Tree.children, List.forall_mem_cons] at below
    simpa using ⟨below.2.1, timed_labelled below.2.2.2.1 composed.1.2 rfl⟩
  · next body =>
    have below := timed_inside held rfl
    have plain := tracks_made.part made (!isFunction ·) rfl body (by simp)
    simp only [Tree.children, List.forall_mem_cons] at below
    simpa using timed_inside below.2.2.1 (by cases body <;> simp_all [Tree.label?])
  · simp

theorem timed_parts {list body : Tree} (made : (Tree.node label children).isMade)
    (held : (Tree.node label children).timed late ⊆ marks) (later : isFunction label)
    (listed : list ∈ children) (isList : list.label? = some .parameters)
    (inside : body ∈ children) (isBody : body.label?.any (· ≠ .functionName))
    (hook? : Option Token) : (functionAct list body hook?).IsTimed marks late := by
  have part {child : Tree} (member : child ∈ children)
      (isPart : child.label?.any (· ≠ .functionName)) : child.timed true ⊆ marks := by
    simpa only [runsLater, later, isPart, Bool.true_and, Bool.true_or] using
      List.Subset.trans (timed_child member) held
  exact timed_function (made_part (by rintro rfl; cases later) made list listed) isList
    (part listed (by simp [isList])) (part inside isBody) hook?

theorem timed_functionDeclaration (made : (Tree.node .functionDeclaration children).isMade)
    (held : (Tree.node .functionDeclaration children).timed late ⊆ marks) :
    AreTimed marks late (functionDeclarationActs children) := by
  have labels := (Bool.and_eq_true_iff.mp (Tree.admits_of_isMade made)).2
  unfold functionDeclarationActs
  split
  · next name list body nodes =>
    have inside {child : Tree} (listed : child ∈ [name, list, body]) : child ∈ children :=
      (List.mem_filter.mp (nodes ▸ listed)).1
    simp only [Tree.admitsWithin, nodes, List.map_cons, List.map_nil, decide_eq_true_eq,
      List.cons.injEq] at labels
    obtain ⟨isName, isList, isBody, -⟩ := labels
    have named := List.Subset.trans (timed_child (inside (by simp) : name ∈ children)) held
    simp only [runsLater, isName] at named
    refine areTimed_append.mpr ⟨timed_functionName (by simpa using named) _, ?_, trivial⟩
    exact timed_parts made held rfl (inside (by simp)) isList (inside (by simp)) (by simp [isBody]) none
  · simp

theorem timed_literal {list body : Tree} (made : (Tree.node label children).isMade)
    (held : (Tree.node label children).timed late ⊆ marks) (later : isFunction label)
    (unnamed : label.parts.all (· ≠ .functionName)) (listed : list ∈ children)
    (isList : list.hasLabel .parameters) (inside : body ∈ children) (isNode : body.isNode)
    (hook? : Option Token) : (functionAct list body hook?).IsTimed marks late := by
  have part := part_of_composed (Bool.and_eq_true_iff.mp made).2 _ unnamed body inside
  refine timed_parts made held later listed (of_decide_eq_true isList) inside ?_ hook?
  cases body with
  | leaf token => cases isNode
  | node => exact part

theorem timed_later (made : Made (.node label children) (.node label children))
    (held : (Tree.node label children).timed late ⊆ marks) (later : isFunction label) :
    AreTimed marks late (plainActs label children) := by
  obtain ⟨fits, within⟩ := Bool.and_eq_true_iff.mp (Tree.admits_of_isMade made.made)
  cases label
  case functionDeclaration => exact timed_functionDeclaration made.made held
  case functionLiteral | lambdaLiteral =>
    obtain ⟨_, -, _, -, _, isBody, rfl⟩ := itemized (of_decide_eq_true fits)
    exact ⟨timed_literal made.made held rfl rfl (by simp) within (by simp) isBody none, trivial⟩
  case tableMethod => exact absurd rfl made.noMethod
  all_goals cases later

theorem timed_plain (made : Made (.node label children) (.node label children))
    (held : (Tree.node label children).timed late ⊆ marks) :
    AreTimed marks late (plainActs label children) := by
  cases prompt : isFunction label with
  | true => exact timed_later made held prompt
  | false =>
    have below : ∀ child ∈ children, child.timed late ⊆ marks := timed_inside held prompt
    have composed := tracks_made.composed made
    simp only [Tree.everywhere_node, Tree.isComposed, Bool.and_eq_true] at composed
    unfold plainActs
    split
    · simpa using below
    · simpa using below
    · simp
    · have declarators := tracks_made.only made rfl
      simp only [areTimed_map]
      exact fun child member => timed_variable (below _ (List.mem_filter.mp member).1)
        (declarators child member)
    · simp_all
    · cases prompt
    · next rest =>
      have value := @timed_value rest marks late fun child member => below child (by simp [member])
      simp_all [timed_nested]
    · simp_all [timed_nested]
    · simp_all [timed_nested]
    · simp only [Tree.areOrdered, Bool.and_eq_true] at composed
      obtain ⟨⟨-, isInit, isCondition, isStep⟩, -⟩ := composed
      simp only [List.forall_mem_cons] at below
      simpa [timed_nested, below] using ⟨timed_labelled below.2.2.1 isInit rfl,
        timed_labelled below.2.2.2.2.1 isCondition rfl, timed_labelled below.2.2.2.2.2.2.1 isStep rfl⟩
    · simp_all [timed_nested, timed_foreachName]
    · have part := made_part (by simp) made.made
      simp only [List.forall_mem_cons] at below part
      simp only [AreTimed, Act.IsTimed, Bool.false_or, areTimed_flatMap, and_true]
      refine ⟨below.2.2.1, fun clause member => ?_⟩
      have inside := (List.mem_filter.mp member).1
      exact timed_switchClause (part.2.2.2 clause inside) (below.2.2.2 clause inside)
    · simp_all [timed_nested]
    · simp_all [Tree.timed]
    · simpa using (update_meets _).timed (below _ (by simp))
    · simpa using (update_meets _).timed (below _ (by simp))
    · simpa using ⟨below _ (by simp), (target_meets _).timed (below _ (by simp))⟩
    · exact timed_newSlot (below _ (by simp)) (below _ (by simp))
    · split <;> simp_all
    · simpa using ⟨callee_meets.timed (below _ (by simp)), below _ (by simp)⟩
    · cases prompt
    · cases prompt
    · next own keyword inner body =>
      have within := (Bool.and_eq_true_iff.mp (Tree.admits_of_isMade made.made)).2
      obtain ⟨isLiteral, -⟩ := Bool.and_eq_true_iff.mp within
      obtain rfl : own = .functionLiteral := by simpa [Tree.hasLabel, Tree.label?] using isLiteral
      have function := Tree.children_made made.made (.node .functionLiteral [keyword, inner, body])
        (by simp)
      obtain ⟨fits, isList⟩ := Bool.and_eq_true_iff.mp (Tree.admits_of_isMade function)
      have isBody : body.isNode := by simp_all [Label.fits]
      split
      · exact ⟨timed_literal function (below _ (by simp)) rfl rfl (by simp) isList (by simp) isBody _,
          trivial⟩
      · simp
    case h_31 => simpa using fun child member _ => below child member
    all_goals simp

/-- What is done with an entry of a table runs when the table does, methods apart. -/
def Filling.IsTimed (marks : List (Token × Bool)) (late : Bool) : Filling → Prop
  | .acts own => AreTimed marks late own
  | .value tree => tree.timed late ⊆ marks

theorem timed_filling (made : tree.isMade) (held : tree.timed late ⊆ marks) :
    (filling tree).IsTimed marks late := by
  unfold filling
  split
  · obtain ⟨fits, isList⟩ := Bool.and_eq_true_iff.mp (Tree.admits_of_isMade made)
    exact ⟨timed_literal made held rfl rfl (by simp) isList (by simp) (by simp_all [Label.fits]) none,
      trivial⟩
  · exact timed_inside held rfl _ (by simp [Tree.children])
  · exact timed_inside held rfl _ (by simp [Tree.children])
  · have below := timed_inside held rfl
    exact ⟨below _ (by simp [Tree.children]), below _ (by simp [Tree.children]), trivial⟩
  · trivial
  · exact ⟨trivial, trivial⟩

def Ending.IsTimed (marks : List (Token × Bool)) (late : Bool) : Ending → Prop
  | .nothing | .table _ => True
  | .value tree | .inherit _ tree => tree.timed late ⊆ marks

theorem timed_script (made : Made (.node label children) (.node label children))
    (held : (Tree.node label children).timed late ⊆ marks) :
    AreTimed marks late (script label children).acts ∧
      (script label children).ending.IsTimed marks late := by
  unfold script
  split
  · exact ⟨trivial, timed_inside held rfl _ (by simp [Tree.children])⟩
  · exact ⟨trivial, trivial⟩
  · next called list =>
    have composed := tracks_made.composed made
    simp only [Tree.everywhere_node, Tree.isComposed, Bool.and_eq_true] at composed
    have below := timed_inside held rfl
    simp only [Tree.children, List.forall_mem_cons] at below
    have given := timed_labelled below.2.1 composed.1.2 rfl
    split
    · next base body both =>
      have inside {child : Tree} (listed : child ∈ [base, body]) : child.timed late ⊆ marks :=
        given child (List.mem_filter.mp (both ▸ listed)).1
      exact ⟨⟨callee_meets.timed below.1, inside (by simp), trivial⟩, inside (by simp)⟩
    · exact ⟨⟨trivial, trivial⟩, trivial⟩
  · exact ⟨timed_plain made held, trivial⟩

end Timing

end Analysis

end Squirrel
