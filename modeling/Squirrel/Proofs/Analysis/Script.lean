import Squirrel.Analysis.Walk

/-! What a visit does to a node, written down as a list of acts. Every label has a script, and the
visit of a node plays the script of its label, so that what holds of all acts holds of every walk. -/

namespace Squirrel.Analysis

section Running

variable {α β : Type} {state after : State} {next : α → Walk β} {walk : Walk α}

theorem bind_run {value : α} (ran : walk state = .ok value after) :
    (walk >>= next) state = next value after := by
  change EStateM.bind walk next state = _
  rw [EStateM.bind, ran]

theorem bind_error {cut : Cut} (ran : walk state = .error cut after) :
    (walk >>= next) state = .error cut after := by
  change EStateM.bind walk next state = _
  rw [EStateM.bind, ran]

theorem bind_ok {value : β} (ran : (walk >>= next) state = .ok value after) :
    ∃ first middle, walk state = .ok first middle ∧ next first middle = .ok value after := by
  cases result : walk state with
  | ok first middle => exact ⟨first, middle, rfl, (bind_run result).symm.trans ran⟩
  | error cut middle =>
    rw [bind_error result] at ran
    cases ran

end Running

/-- Where a name is declared. A function that is not local belongs to the root if it stands at the
top of the file. -/
inductive Home where
  | here
  | root
  | function (isLocal : Bool)

def Home.find : Home → Walk ScopeId
  | .here => return (← get).scope
  | .root => return ScopeGraph.root
  | .function isLocal => functionScope isLocal

inductive Enclosure where
  | function | block

def Enclosure.kind : Enclosure → ScopeKind
  | .function => .function
  | .block => .block

theorem Enclosure.kind_ne_root (enclosure : Enclosure) : enclosure.kind ≠ .root := by
  cases enclosure <;> decide

/-- A single act of a visit. An `excuse` declares a name that nobody has to use, and a name is bound
with `bind` to the table that its value stands for, if there is one. -/
inductive Act where
  | walk (tree : Tree)
  | refer (name : Token) (isCall isRead isWrite : Bool)
  | declare (home : Home) (name : Token) (kind : DeclarationKind)
  | excuse (name : Token)
  | bind (home : Home) (name : Token) (kind : DeclarationKind) (value? : Option Tree)
  | recover (tokens : List Token)
  | within (enclosure : Enclosure) (later : Bool) (acts : List Act)
  | fail (label : Label)

def tableOf (walk : Visitor) : Option Tree → Walk (Option ScopeId)
  | some value => walk value
  | none => return none

mutual

def Act.play (walk : Visitor) : Act → Walk Unit
  | .walk tree => walkOne walk tree
  | .refer name isCall isRead isWrite => Analysis.refer name isCall isRead isWrite
  | .declare home name kind => do
    let _ ← declareIn (← home.find) name.text kind name.span
  | .excuse name => do
    let id ← Analysis.declare name .parameter
    updateDeclaration id ({ · with quiet := true })
  | .bind home name kind value? => do
    let table ← tableOf walk value?
    let id ← declareIn (← home.find) name.text kind name.span
    updateDeclaration id ({ · with tableScope := table })
  | .recover tokens => recoverNames none none tokens
  | .within enclosure later acts =>
    inScope enclosure.kind fun _ =>
      if later then deferring (playAll walk acts) else playAll walk acts
  | .fail label => misshapen label

def playAll (walk : Visitor) : List Act → Walk Unit
  | [] => return ()
  | act :: acts => do
    act.play walk
    playAll walk acts

end

/-- What a visit gives in the end: nothing, what a tree inside stands for, or a table. -/
inductive Ending where
  | nothing
  | value (tree : Tree)
  | table (entries : List Tree)
  | inherit (base body : Tree)

/-- What is done with an entry of a table after its name is declared. -/
inductive Filling where
  | acts (acts : List Act)
  | value (tree : Tree)

structure Script where
  acts : List Act
  ending : Ending

section Acts

def bodyActs : Tree → List Act
  | .node .block children => children.map .walk
  | tree => [.walk tree]

def nestedAct (statement : Tree) : Act := .within .block false (bodyActs statement)

/-- What stands behind the name and the sign of a parameter or a declarator. -/
def valueOf? : List Tree → Option Tree
  | [_, value] => some value
  | _ => none

def parameterActs (parameter : Tree) : List Act :=
  match parameter.children with
  | .leaf name :: rest =>
    (if name.kind = .identifier then [.declare .here name .parameter] else []) ++
      (valueOf? rest).toList.map .walk
  | _ => [.fail .parameter]

def functionAct (parameters body : Tree) (hook? : Option Token) : Act :=
  .within .function true <|
    (hook?.toList.map fun hook => .declare .here hook .hookParameter) ++
      (parameters.subtrees.flatMap parameterActs ++ bodyActs body)

def variableAct (declarator : Tree) : Act :=
  match declarator.children with
  | .leaf name :: rest => .bind .here name .localVariable (valueOf? rest)
  | _ => .fail .declarator

def functionNameActs (isLocal : Bool) : Tree → List Act
  | .node _ [.leaf name] => [.declare (.function isLocal) name .function]
  | .node _ (.leaf first :: _) =>
    if first.kind = .identifier then [.refer first false true false] else []
  | _ => [.fail .functionName]

def functionDeclarationActs (children : List Tree) : List Act :=
  match children.filter (·.isNode) with
  | [name, parameters, body] =>
    functionNameActs (children.head?.any (·.isToken .kwLocal)) name ++
      [functionAct parameters body none]
  | _ => [.fail .functionDeclaration]

def foreachNameActs : Tree → List Act
  | .leaf name => if name.kind = .identifier then [.declare .here name .localVariable] else []
  | .node _ _ => []

def switchClauseActs : Tree → List Act
  | .node .caseClause [_, value, _, body] => .walk value :: body.children.map .walk
  | .node .defaultClause [_, _, body] => body.children.map .walk
  | _ => [.fail .switchStatement]

def updateAct (operator : Token) (operand : Tree) : Act :=
  match operand with
  | .node .reference [.leaf name] =>
    if operator.kind = .increment ∨ operator.kind = .decrement then .refer name false true true
    else .walk operand
  | _ => .walk operand

def targetAct (operator : Token) (target : Tree) : Act :=
  match target with
  | .node .reference [.leaf name] => .refer name false (operator.kind ≠ .assign) true
  | _ => .walk target

def newSlotActs (target value : Tree) : List Act :=
  match target with
  | .node .reference [.leaf name] => [.bind .root name .tableSlot (some value)]
  | .node .rootReference [_, .leaf name] => [.bind .root name .tableSlot (some value)]
  | _ => [.walk value, .walk target]

def calleeAct (tree : Tree) : Act :=
  match tree with
  | .node .reference [.leaf name] => .refer name true true false
  | _ => .walk tree

def filling : Tree → Filling
  | .node .tableMethod [_, _, parameters, body] => .acts [functionAct parameters body none]
  | .node .tableSlot [_, _, value] => .value value
  | .node .tableQuoted [_, _, value] => .value value
  | .node .tableComputed [_, key, _, _, value] => .acts [.walk key, .walk value]
  | .node .error _ => .acts []
  | _ => .acts [.fail .table]

def plainActs (label : Label) (children : List Tree) : List Act :=
  match label, children with
  | .program, _ => [.within .function false (children.map .walk)]
  | .block, _ => [.within .block false (children.map .walk)]
  | .error, _ => [.recover (Tree.tokensOf children)]
  | .localDeclaration, _ => (children.filter (·.isNode)).map variableAct
  | .constDeclaration, _ :: .leaf name :: _ :: value :: _ =>
    [.walk value, .declare .root name .constant]
  | .functionDeclaration, _ => functionDeclarationActs children
  | .ifStatement, _ :: _ :: condition :: _ :: first :: rest =>
    .walk condition :: nestedAct first :: (valueOf? rest).toList.map nestedAct
  | .whileStatement, [_, _, condition, _, body] => [.walk condition, nestedAct body]
  | .doWhileStatement, _ :: body :: _ :: _ :: condition :: _ => [nestedAct body, .walk condition]
  | .forStatement, [_, _, init, _, condition, _, step, _, body] =>
    [.within .block false (init.children.map .walk ++ (condition.children.map .walk ++
      (step.children.map .walk ++ [nestedAct body])))]
  | .foreachStatement, [_, _, names, _, container, _, body] =>
    [.walk container,
      .within .block false (names.children.flatMap foreachNameActs ++ [nestedAct body])]
  | .switchStatement, _ :: _ :: subject :: rest =>
    [.walk subject, .within .block false ((rest.filter (·.isNode)).flatMap switchClauseActs)]
  | .tryStatement, [_, body, _, _, .leaf name, _, handler] =>
    [nestedAct body, .within .block false [.excuse name, nestedAct handler]]
  | .reference, .leaf name :: _ => [.refer name false true false]
  | .unary, [.leaf operator, operand] => [updateAct operator operand]
  | .postUpdate, [operand, .leaf operator] => [updateAct operator operand]
  | .assign, [target, .leaf operator, value] => [.walk value, targetAct operator target]
  | .newSlot, [target, _, value] => newSlotActs target value
  | .member, object :: _ =>
    if object.hasLabel .reference ∧ object.identifier? = some stateTable then [] else [.walk object]
  | .call, [called, arguments] => [calleeAct called, .walk arguments]
  | .functionLiteral, [_, parameters, body] => [functionAct parameters body none]
  | .lambdaLiteral, [_, parameters, body] => [functionAct parameters body none]
  | .hookWrapper, [_, parameters, .node _ [_, inner, body]] =>
    match (parameters.subtrees.head?.bind (·.children.head?)).bind (·.token?) with
    | some hook => [functionAct inner body (some hook)]
    | none => [.fail .hookWrapper]
  | .literal, _ | .thisObject, _ | .baseObject, _ | .rootReference, _ | .emptyStatement, _
  | .breakStatement, _ | .continueStatement, _ => []
  | _, _ => (children.filter (·.isNode)).map .walk

def script (label : Label) (children : List Tree) : Script :=
  match label, children with
  | .parenthesized, [_, inner, _] => ⟨[], .value inner⟩
  | .table, _ => ⟨[], .table (children.filter (·.isNode))⟩
  | .inheritCall, [called, arguments] =>
    match arguments.subtrees with
    | [base, body] => ⟨[calleeAct called, .walk base], .inherit base body⟩
    | _ => ⟨[.fail .inheritCall], .nothing⟩
  | _, _ => ⟨plainActs label children, .nothing⟩

end Acts

section Playing

variable (walk : Visitor)

def Filling.play (slot : Option DeclarationId) : Filling → Walk Unit
  | .acts own => playAll walk own
  | .value tree => do
    let table ← walk tree
    match slot with
    | some id => updateDeclaration id ({ · with tableScope := table })
    | none => misshapen .table

def fillAll : List (Tree × Option DeclarationId) → Walk Unit
  | [] => return ()
  | (entry, slot) :: entries => do
    (filling entry).play walk slot
    fillAll entries

def Ending.play : Ending → Walk (Option ScopeId)
  | .nothing => return none
  | .value tree => walk tree
  | .table entries => inScope .table fun inner => do
    fillAll walk (← declareSlots inner entries)
    return some inner
  | .inherit base body => do
    match ← walk body with
    | some inner =>
      let seq ← nextSeq
      modify fun state =>
        { state with
          inheritances := state.inheritances ++
            [⟨inner, base, state.scope, seq, 0 < state.functionDepth⟩] }
      return some inner
    | none => misshapen .inheritCall

def Script.play (script : Script) : Walk (Option ScopeId) := do
  playAll walk script.acts
  script.ending.play walk

variable {walk}

@[simp] theorem playAll_nil : playAll walk [] = pure () := rfl

@[simp] theorem playAll_cons (act : Act) (acts : List Act) :
    playAll walk (act :: acts) = (do act.play walk; playAll walk acts) := rfl

@[simp] theorem playAll_append (first second : List Act) :
    playAll walk (first ++ second) = (do playAll walk first; playAll walk second) := by
  induction first with
  | nil => rfl
  | cons act first ih => simp [ih]

theorem playAll_single (act : Act) : playAll walk [act] = act.play walk := by simp

section Acts

variable (home : Home) (name : Token) (kind : DeclarationKind)

theorem play_walk (tree : Tree) : (Act.walk tree).play walk = walkOne walk tree := rfl

theorem play_declare : (Act.declare home name kind).play walk = (do
    let _ ← declareIn (← home.find) name.text kind name.span) := rfl

theorem play_excuse : (Act.excuse name).play walk = (do
    let id ← declare name .parameter
    updateDeclaration id ({ · with quiet := true })) := rfl

theorem play_bind (value? : Option Tree) : (Act.bind home name kind value?).play walk = (do
    let table ← tableOf walk value?
    let id ← declareIn (← home.find) name.text kind name.span
    updateDeclaration id ({ · with tableScope := table })) := rfl

theorem play_within (enclosure : Enclosure) (later : Bool) (acts : List Act) :
    (Act.within enclosure later acts).play walk = inScope enclosure.kind fun _ =>
      if later then deferring (playAll walk acts) else playAll walk acts := rfl

end Acts

theorem playAll_walks (trees : List Tree) : playAll walk (trees.map .walk) = walkAll walk trees := by
  induction trees with
  | nil => rfl
  | cons tree trees ih =>
    simp only [List.map_cons, playAll_cons, ih, play_walk, walkOne, walkAll, bind_assoc, pure_bind]

theorem walkAll_nodes (rests : ∀ token, walk (.leaf token) = pure none) (trees : List Tree) :
    walkAll walk (trees.filter (·.isNode)) = walkAll walk trees := by
  induction trees with
  | nil => rfl
  | cons tree trees ih =>
    cases tree with
    | leaf token =>
      rw [List.filter_cons_of_neg (by simp [Tree.isNode, Tree.isLeaf]), ih, walkAll, rests, pure_bind]
    | node label children =>
      rw [List.filter_cons_of_pos (by simp [Tree.isNode, Tree.isLeaf]), walkAll, walkAll, ih]

theorem playAll_body (tree : Tree) : playAll walk (bodyActs tree) = walkBody walk tree := by
  fun_cases bodyActs tree with
  | case1 children => exact playAll_walks children
  | case2 tree other =>
    rw [walkBody.eq_2 walk tree other]
    exact playAll_single _

theorem play_nested (statement : Tree) : (nestedAct statement).play walk = nested walk statement := by
  simp only [nestedAct, play_within, Enclosure.kind, nested, playAll_body, Bool.false_eq_true,
    if_false]

theorem playAll_value {act : Tree → Act} {run : Tree → Walk Unit}
    (plays : ∀ tree, (act tree).play walk = run tree) (rest : List Tree) :
    playAll walk ((valueOf? rest).toList.map act) = (match rest with
      | [_, value] => run value
      | _ => pure ()) := by
  split
  · exact (playAll_single _).trans (plays _)
  · rw [valueOf?]
    · rfl
    · assumption

theorem playAll_parameter (parameter : Tree) :
    playAll walk (parameterActs parameter) = walkParameter walk parameter := by
  unfold walkParameter
  split
  · next name rest same =>
    rw [parameterActs, same]
    simp only [playAll_append, playAll_value fun _ => rfl]
    split
    · simp only [playAll_single, play_declare, Home.find, declare, bind_assoc, pure_bind] <;> rfl
    · simp only [playAll_nil, pure_bind] <;> rfl
  · next other =>
    rw [parameterActs]
    split
    · next same => exact absurd same (other _ _)
    · exact playAll_single _

theorem playAll_parameters (parameters : List Tree) :
    playAll walk (parameters.flatMap parameterActs) = walkParameters walk parameters := by
  induction parameters with
  | nil => rfl
  | cons parameter parameters ih =>
    rw [List.flatMap_cons, playAll_append, playAll_parameter, ih]
    rfl

theorem play_function (parameters body : Tree) (hook? : Option Token) :
    (functionAct parameters body hook?).play walk = function walk parameters body hook? := by
  have hooked : playAll walk (hook?.toList.map fun hook => .declare .here hook .hookParameter) =
      declareHook hook? := by
    cases hook? with
    | none => rfl
    | some hook =>
      simp only [Option.toList_some, List.map_cons, List.map_nil, playAll_single, play_declare,
        Home.find, declareHook, declare, bind_assoc, pure_bind]
  simp only [functionAct, play_within, Enclosure.kind, function, if_true, playAll_append, hooked,
    playAll_parameters, playAll_body]

theorem play_variable (declarator : Tree) :
    (variableAct declarator).play walk = localVariable walk declarator := by
  unfold localVariable
  split
  · next name rest same =>
    rw [variableAct, same]
    simp only [play_bind, Home.find, declare, bind_assoc, pure_bind]
    split
    · rfl
    · rw [valueOf?]
      · simp only [tableOf, pure_bind]
      · assumption
  · next other =>
    rw [variableAct]
    split
    · next same => exact absurd same (other _ _)
    · rfl

theorem playAll_variables (declarators : List Tree) :
    playAll walk (declarators.map variableAct) = localDeclaration walk declarators := by
  induction declarators with
  | nil => rfl
  | cons declarator declarators ih =>
    rw [List.map_cons, playAll_cons, play_variable, ih]
    rfl

theorem playAll_functionName (isLocal : Bool) (name : Tree) :
    playAll walk (functionNameActs isLocal name) = functionName isLocal name := by
  unfold functionName
  split
  · exact playAll_single _
  · next single =>
    rw [functionNameActs]
    · split
      · exact playAll_single _
      · rfl
    · exact single
  · next single several =>
    rw [functionNameActs]
    · exact playAll_single _
    · exact single
    · exact several

theorem playAll_functionDeclaration (children : List Tree) :
    playAll walk (functionDeclarationActs children) = functionDeclaration walk children := by
  unfold functionDeclaration
  split
  · next nodes =>
    rw [functionDeclarationActs, nodes]
    simp only [playAll_append, playAll_functionName, playAll_single, play_function]
  · next other =>
    rw [functionDeclarationActs]
    split
    · next nodes => exact absurd nodes (other _ _ _)
    · exact playAll_single _

theorem playAll_foreachNames (names : List Tree) :
    playAll walk (names.flatMap foreachNameActs) = foreachNames names := by
  induction names with
  | nil => rfl
  | cons name names ih =>
    rw [List.flatMap_cons, playAll_append, ih]
    cases name with
    | node label children => rfl
    | leaf token =>
      rw [foreachNames, foreachNameActs]
      split
      · simp only [playAll_single, play_declare, Home.find, declare, bind_assoc, pure_bind]
      · simp only [playAll_nil, pure_bind]

theorem playAll_switchClause (clause : Tree) :
    playAll walk (switchClauseActs clause) = switchClause walk clause := by
  unfold switchClause
  split
  · rw [switchClauseActs, playAll_cons, playAll_walks]
    rfl
  · exact playAll_walks _
  · rw [switchClauseActs]
    · exact playAll_single _
    all_goals assumption

theorem playAll_switchClauses (clauses : List Tree) :
    playAll walk (clauses.flatMap switchClauseActs) = switchClauses walk clauses := by
  induction clauses with
  | nil => rfl
  | cons clause clauses ih =>
    rw [List.flatMap_cons, playAll_append, playAll_switchClause, ih]
    rfl

theorem play_update (operator : Token) (operand : Tree) :
    (updateAct operator operand).play walk = update walk operator operand := by
  unfold update
  split
  · rw [updateAct]
    split
    · rfl
    · rfl
  · rw [updateAct]
    · rfl
    · assumption

theorem play_target (operator : Token) (target : Tree) :
    (targetAct operator target).play walk = (match target with
      | .node .reference [.leaf name] => refer name false (operator.kind ≠ .assign) true
      | _ => walkOne walk target) := by
  split
  · rfl
  · rw [targetAct]
    · rfl
    · assumption

theorem playAll_newSlot (target value : Tree) :
    playAll walk (newSlotActs target value) = newSlot walk target value := by
  unfold newSlot
  dsimp only
  split
  · simp only [newSlotActs, playAll_single, play_bind, tableOf, Home.find, pure_bind]
  · simp only [newSlotActs, playAll_single, play_bind, tableOf, Home.find, pure_bind]
  · rw [newSlotActs]
    · simp only [playAll_cons, playAll_nil, play_walk, walkOne, bind_assoc, pure_bind]
    all_goals assumption

theorem play_callee (tree : Tree) : (calleeAct tree).play walk = callee walk tree := by
  unfold callee
  split
  · rfl
  · rw [calleeAct]
    · rfl
    · assumption

theorem play_filling (entry : Tree) (slot : Option DeclarationId) :
    (filling entry).play walk slot = walkEntry walk entry slot := by
  unfold walkEntry
  split
  · exact (playAll_single _).trans (play_function _ _ _)
  · rfl
  · rfl
  · simp only [filling, Filling.play, playAll_cons, playAll_nil, play_walk, walkOne, bind_assoc,
      pure_bind]
  · rfl
  · rw [filling]
    · exact playAll_single _
    all_goals assumption

theorem fillAll_eq (entries : List (Tree × Option DeclarationId)) :
    fillAll walk entries = walkEntries walk entries := by
  induction entries with
  | nil => rfl
  | cons entry entries ih =>
    obtain ⟨entry, slot⟩ := entry
    rw [fillAll, play_filling, ih]
    rfl

theorem playAll_plain (rests : ∀ token, walk (.leaf token) = pure none) (label : Label)
    (children : List Tree) :
    playAll walk (plainActs label children) = visitPlain walk label children := by
  have walks (trees : List Tree) : playAll walk (trees.map .walk) = walkAll walk trees :=
    playAll_walks trees
  unfold visitPlain
  split
  · exact (playAll_single _).trans (by simp only [play_within, walks]; rfl)
  · exact (playAll_single _).trans (by simp only [play_within, walks]; rfl)
  · exact playAll_single _
  · exact playAll_variables _
  · simp only [plainActs, playAll_cons, playAll_nil, play_walk, play_declare, Home.find, bind_assoc,
      pure_bind]
  · exact playAll_functionDeclaration _
  · simp only [plainActs, playAll_cons, play_walk, play_nested, playAll_value play_nested] <;> rfl
  · simp only [plainActs, playAll_cons, playAll_nil, play_walk, play_nested, bind_pure_unit]
  · simp only [plainActs, playAll_cons, playAll_nil, play_walk, play_nested, bind_pure_unit]
  · refine (playAll_single _).trans ?_
    simp only [play_within, playAll_append, walks, playAll_single, play_nested]
    rfl
  · simp only [plainActs, playAll_cons, playAll_nil, play_walk, play_within, playAll_append,
      play_nested, playAll_foreachNames, bind_pure_unit]
    rfl
  · simp only [plainActs, playAll_cons, playAll_nil, play_walk, play_within, playAll_switchClauses,
      bind_pure_unit]
    rfl
  · simp only [plainActs, playAll_cons, playAll_nil, play_within, play_excuse, play_nested,
      bind_pure_unit, bind_assoc]
    rfl
  · exact playAll_single _
  · exact (playAll_single _).trans (play_update _ _)
  · exact (playAll_single _).trans (play_update _ _)
  · simp only [plainActs, playAll_cons, playAll_nil, play_target, play_walk, bind_pure_unit]
    rfl
  · exact playAll_newSlot _ _
  · rw [plainActs]
    split
    · rfl
    · exact playAll_single _
  · simp only [plainActs, playAll_cons, playAll_nil, play_callee, play_walk, bind_pure_unit]
  · exact (playAll_single _).trans (play_function _ _ _)
  · exact (playAll_single _).trans (play_function _ _ _)
  · next parameters _ _ _ _ =>
    rw [plainActs]
    cases (parameters.subtrees.head?.bind (·.children.head?)).bind (·.token?) with
    | some hook => exact (playAll_single _).trans (play_function _ _ _)
    | none => exact playAll_single _
  case h_31 =>
    rw [plainActs]
    · exact (walks _).trans (walkAll_nodes rests children)
    all_goals assumption
  all_goals rfl

theorem map_inScope {α β : Type} (kind : ScopeKind) (inside : ScopeId → Walk α) (result : α → β) :
    result <$> inScope kind inside = inScope kind fun inner => result <$> inside inner := by
  simp only [inScope, map_eq_pure_bind, bind_assoc, pure_bind]

theorem visitFitting_eq (rests : ∀ token, walk (.leaf token) = pure none) (label : Label)
    (children : List Tree) :
    visitFitting walk label children = (script label children).play walk := by
  unfold visitFitting
  split
  · rfl
  · simp only [script, Script.play, playAll_nil, pure_bind, Ending.play, table, fillAll_eq,
      map_inScope, map_bind, map_pure]
  · next called arguments =>
    rw [script]
    rcases arguments.subtrees with _ | ⟨base, _ | ⟨body, _ | ⟨more, rest⟩⟩⟩
    · rfl
    · rfl
    · simp only [Script.play, playAll_cons, playAll_nil, play_callee, play_walk, Ending.play,
        inherit, bind_assoc, pure_bind] <;> rfl
    · rfl
  · rw [script]
    · simp only [Script.play, playAll_plain rests, Ending.play]
    all_goals assumption

theorem walk_node (levels : Nat) (label : Label) (children : List Tree) :
    Analysis.walk (levels + 1) (.node label children) =
      if Tree.admits label children then (script label children).play (Analysis.walk levels)
      else misshapen label := by
  have rests (token : Token) : Analysis.walk levels (.leaf token) = pure none := by
    cases levels <;> rfl
  rw [Analysis.walk, visit, visitFitting_eq rests]

end Playing

end Squirrel.Analysis
