import Squirrel.Proofs.Grammar.Completeness

/-! Tokens that say the same and start lines where the others do are read in the same way, and so
they are in front of the end. -/

namespace Squirrel

def Token.bare (token : Token) : Token := ⟨token.toLexeme, ⟨0, 0, 0, 0⟩, [], []⟩

namespace Tree

mutual

def recast (change : Token → Token) : Tree → Tree
  | .leaf token => .leaf (change token)
  | .node label children => .node label (recastOf change children)

def recastOf (change : Token → Token) : List Tree → List Tree
  | [] => []
  | tree :: trees => tree.recast change :: recastOf change trees

end

section Recast

variable {change : Token → Token}

theorem recastOf_eq_map (trees : List Tree) : recastOf change trees = trees.map (·.recast change) := by
  induction trees with
  | nil => rw [recastOf, List.map_nil]
  | cons tree trees ih => rw [recastOf, ih, List.map_cons]

@[simp] theorem recast_leaf (token : Token) : (leaf token).recast change = .leaf (change token) := by
  rw [recast]

@[simp] theorem recast_node (label : Label) (children : List Tree) :
    (node label children).recast change = .node label (children.map (·.recast change)) := by
  rw [recast, recastOf_eq_map]

theorem recast_leaves (tokens : List Token) :
    (tokens.map Tree.leaf).map (·.recast change) = (tokens.map change).map .leaf := by
  simp

mutual

theorem tokens_recast : (tree : Tree) → (tree.recast change).tokens = tree.tokens.map change
  | .leaf token => by simp
  | .node label children => by
    rw [recast, tokens_node, tokens_node, tokensOf_recastOf]

theorem tokensOf_recastOf : (trees : List Tree) →
    tokensOf (recastOf change trees) = (tokensOf trees).map change
  | [] => by rw [recastOf]; simp
  | tree :: trees => by
    rw [recastOf, tokensOf_cons, tokensOf_cons, tokens_recast, tokensOf_recastOf, List.map_append]

end

@[simp] theorem tokensOf_recast (trees : List Tree) :
    tokensOf (trees.map (·.recast change)) = (tokensOf trees).map change := by
  rw [← recastOf_eq_map, tokensOf_recastOf]

theorem isNode_recast (tree : Tree) : (tree.recast change).isNode = tree.isNode := by
  cases tree <;> simp [isNode, isLeaf]

theorem label?_recast (tree : Tree) : (tree.recast change).label? = tree.label? := by
  cases tree <;> simp [label?]

theorem hasLabel_recast (tree : Tree) (label : Label) :
    (tree.recast change).hasLabel label = tree.hasLabel label := by
  rw [hasLabel, hasLabel, label?_recast]

theorem children_recast (tree : Tree) :
    (tree.recast change).children = tree.children.map (·.recast change) := by
  cases tree <;> simp [children]

theorem subtrees_recast (tree : Tree) :
    (tree.recast change).subtrees = tree.subtrees.map (·.recast change) := by
  rw [subtrees, subtrees, children_recast, List.filter_map]
  congr 1
  exact List.filter_congr fun child _ => isNode_recast child

mutual

theorem errors_recast : (tree : Tree) → (tree.recast change).errors = tree.errors
  | .leaf token => by simp
  | .node label children => by rw [recast, errors_node, errors_node, errorsOf_recastOf]

theorem errorsOf_recastOf : (trees : List Tree) →
    errorsOf (recastOf change trees) = errorsOf trees
  | [] => by rw [recastOf]
  | tree :: trees => by
    rw [recastOf, errorsOf_cons, errorsOf_cons, errors_recast, errorsOf_recastOf]

end

mutual

theorem bare_recast (alike : ∀ token, (change token).toLexeme = token.toLexeme) : (tree : Tree) →
    (tree.recast change).recast Token.bare = tree.recast Token.bare
  | .leaf token => by simp [Token.bare, alike]
  | .node label children => by
    rw [recast, recast, recast, bareOf_recastOf alike]

theorem bareOf_recastOf (alike : ∀ token, (change token).toLexeme = token.toLexeme) :
    (trees : List Tree) →
    recastOf Token.bare (recastOf change trees) = recastOf Token.bare trees
  | [] => by rw [recastOf]
  | tree :: trees => by
    rw [recastOf, recastOf, recastOf, bare_recast alike, bareOf_recastOf alike]

end

end Recast

end Tree

namespace Grammar

open Squirrel.Tree (tokensOf nextOf)

section Shapes

variable {change : Token → Token} (alike : ∀ token, (change token).toLexeme = token.toLexeme)

include alike

theorem kind_change (token : Token) : (change token).kind = token.kind :=
  congrArg Lexeme.kind (alike token)

theorem text_change (token : Token) : (change token).text = token.text :=
  congrArg Lexeme.text (alike token)

theorem lastText_recast (children : List Tree) :
    ((children.map (·.recast change)).getLast?.bind (·.token?)).map (·.text) =
      (children.getLast?.bind (·.token?)).map (·.text) := by
  rw [List.getLast?_map]
  cases children.getLast? with
  | none => rfl
  | some last =>
    cases last with
    | leaf token => simp [Tree.token?, text_change alike]
    | node label children => simp [Tree.token?]

theorem calleeName?_recast (callee : Tree) :
    calleeName? (callee.recast change) = calleeName? callee := by
  cases callee with
  | leaf token => simp [calleeName?]
  | node label children =>
    rw [Tree.recast_node]
    cases label with
    | reference =>
      cases children with
      | nil => rfl
      | cons first others =>
        cases first with
        | leaf token => simp [calleeName?, text_change alike]
        | node label children => simp [calleeName?]
    | member => exact lastText_recast alike children
    | rootReference => exact lastText_recast alike children
    | _ => rfl

theorem makeCall_recast (callee list : Tree) :
    makeCall (callee.recast change) (list.recast change) = (makeCall callee list).recast change := by
  unfold makeCall
  rw [Tree.subtrees_recast, calleeName?_recast alike]
  match list.subtrees with
  | [] | [_] | _ :: _ :: _ :: _ => simp
  | [_, body] =>
    simp only [List.map_cons, List.map_nil, Tree.hasLabel_recast]
    split <;> simp

theorem identifier?_recast (tree : Tree) : (tree.recast change).identifier? = tree.identifier? := by
  cases tree with
  | leaf token => simp [Tree.identifier?, kind_change alike, text_change alike]
  | node label children =>
    rw [Tree.recast_node]
    cases label with
    | reference =>
      cases children with
      | nil => rfl
      | cons first others =>
        cases first with
        | leaf token => simp [Tree.identifier?, text_change alike]
        | node label children => simp [Tree.identifier?]
    | _ => rfl

theorem parameterNames_recast (list : Tree) :
    parameterNames (list.recast change) = parameterNames list := by
  rw [parameterNames, parameterNames, Tree.subtrees_recast, List.map_map]
  refine List.map_congr_left fun parameter _ => ?_
  simp only [Function.comp_apply, Tree.children_recast, List.head?_map]
  cases parameter.children.head? with
  | none => rfl
  | some first => exact identifier?_recast alike first

theorem lambdaLabel_recast (list body : Tree) :
    lambdaLabel (list.recast change) (body.recast change) = lambdaLabel list body := by
  rw [lambdaLabel, lambdaLabel, parameterNames_recast alike, Tree.hasLabel_recast]

theorem loopNames_recast {names : List Tree} (named : LoopNames names) :
    LoopNames (names.map (·.recast change)) := by
  rcases named with ⟨name, isName, rfl⟩ | ⟨key, comma, value, isKey, isComma, isValue, rfl⟩
  · exact .inl ⟨change name, (kind_change alike name).trans isName, by simp⟩
  · exact .inr ⟨change key, change comma, change value, (kind_change alike key).trans isKey,
      (kind_change alike comma).trans isComma, (kind_change alike value).trans isValue, by simp⟩

end Shapes

section Lines

variable {change : Token → Token} {trees : List Tree} {tree : Tree}

/-- The tokens of some trees start lines where the tokens in their places do. -/
def Keeps (change : Token → Token) (trees : List Tree) : Prop :=
  ∀ token ∈ tokensOf trees, (change token).startsLine = token.startsLine

def KeepsAfter (change : Token → Token) (trees : List Tree) : Prop :=
  ∀ token ∈ (tokensOf trees).tail, (change token).startsLine = token.startsLine

@[simp] theorem keeps_nil : Keeps change [] := by simp [Keeps]

@[simp] theorem keeps_leaf (token : Token) (trees : List Tree) :
    Keeps change (.leaf token :: trees) ↔
      (change token).startsLine = token.startsLine ∧ Keeps change trees := by
  simp [Keeps]

@[simp] theorem keeps_node (label : Label) (children trees : List Tree) :
    Keeps change (.node label children :: trees) ↔ Keeps change children ∧ Keeps change trees := by
  simp [Keeps, or_imp, forall_and]

@[simp] theorem keeps_append (first second : List Tree) :
    Keeps change (first ++ second) ↔ Keeps change first ∧ Keeps change second := by
  simp [Keeps, or_imp, forall_and]

theorem keeps_cons (tree : Tree) (trees : List Tree) :
    Keeps change (tree :: trees) ↔ Keeps change [tree] ∧ Keeps change trees := by
  simp [Keeps, or_imp, forall_and]

theorem Keeps.after (keeps : Keeps change trees) : KeepsAfter change trees :=
  fun token member => keeps token (List.mem_of_mem_tail member)

@[simp] theorem keepsAfter_leaf (token : Token) (trees : List Tree) :
    KeepsAfter change (.leaf token :: trees) ↔ Keeps change trees := by
  simp [Keeps, KeepsAfter]

@[simp] theorem keepsAfter_node (label : Label) (children : List Tree) :
    KeepsAfter change [.node label children] ↔ KeepsAfter change children := by
  simp [KeepsAfter]

theorem keepsAfter_cons (full : tokensOf [tree] ≠ []) (trees : List Tree) :
    KeepsAfter change (tree :: trees) ↔ KeepsAfter change [tree] ∧ Keeps change trees := by
  obtain ⟨first, others, shape⟩ := List.exists_cons_of_ne_nil full
  have own : tree.tokens = first :: others := by simpa using shape
  simp [KeepsAfter, Keeps, own, or_imp, forall_and]

end Lines

section Following

def Category.mayEnd : Category → Bool
  | .deeper category | .separated category => category.mayEnd
  | .parameterList | .forInit | .optionalExpression _ => false
  | _ => true

/-- A token that takes the place of another one: it is like that one, or the end where that may
be. -/
def Precedes (mayEnd : Bool) (next next' : Token) : Prop :=
  (next'.kind = next.kind ∧ next'.startsLine = next.startsLine) ∨
    (mayEnd ∧ next'.kind = .endOfInput)

variable {mayEnd : Bool} {next next' : Token} {change : Token → Token}

theorem Precedes.free (precedes : Precedes mayEnd next next') : Precedes true next next' :=
  precedes.imp_right fun ended => ⟨rfl, ended.2⟩

section

variable (alike : ∀ token, (change token).toLexeme = token.toLexeme)

include alike

theorem precedes_change {token : Token} (line : (change token).startsLine = token.startsLine) :
    Precedes mayEnd token (change token) :=
  .inl ⟨kind_change alike token, line⟩

omit alike in
theorem nextOf_recast_full {trees : List Tree} (full : tokensOf trees ≠ []) (next next' : Token) :
    nextOf (trees.map (·.recast change)) next' = change (nextOf trees next) := by
  obtain ⟨first, others, shape⟩ := List.exists_cons_of_ne_nil full
  simp [nextOf, shape]

theorem kind_nextOf_recast {trees : List Tree} (full : tokensOf trees ≠ []) (next next' : Token) :
    (nextOf (trees.map (·.recast change)) next').kind = (nextOf trees next).kind := by
  rw [nextOf_recast_full full next next', kind_change alike]

theorem kind_starts {tree : Tree} (full : tokensOf [tree] ≠ []) (trees trees' : List Tree)
    (next next' : Token) :
    (nextOf (tree.recast change :: trees') next').kind = (nextOf (tree :: trees) next).kind := by
  obtain ⟨first, others, shape⟩ := List.exists_cons_of_ne_nil full
  have own : tree.tokens = first :: others := by simpa using shape
  simp [nextOf, Tree.tokens_recast, own, kind_change alike]

theorem endsReturn_starts {tree : Tree} (full : tokensOf [tree] ≠ []) (keeps : Keeps change [tree])
    (next next' : Token) :
    endsReturn (nextOf [tree.recast change] next') = endsReturn (nextOf [tree] next) := by
  obtain ⟨first, others, shape⟩ := List.exists_cons_of_ne_nil full
  have own : tree.tokens = first :: others := by simpa using shape
  have line := keeps first (by simp [own])
  simp [nextOf, Tree.tokens_recast, own, endsReturn, kind_change alike, line]

theorem Precedes.nextOf {trees : List Tree} (keeps : Keeps change trees)
    (precedes : Precedes mayEnd next next') :
    Precedes mayEnd (nextOf trees next) (nextOf (trees.map (·.recast change)) next') := by
  by_cases full : tokensOf trees = []
  · simpa [Tree.nextOf, full] using precedes
  · rw [nextOf_recast_full full next next']
    refine precedes_change alike (keeps _ ?_)
    obtain ⟨first, others, shape⟩ := List.exists_cons_of_ne_nil full
    simp [Tree.nextOf, shape]

end

theorem Precedes.holds (property : Kind → Bool → Prop) (precedes : Precedes mayEnd next next')
    (atEnd : ∀ line, property .endOfInput line) (holds : property next.kind next.startsLine) :
    property next'.kind next'.startsLine := by
  rcases precedes with ⟨kind, line⟩ | ⟨-, ended⟩
  · rwa [kind, line]
  · rw [ended]
    exact atEnd _

variable (precedes : Precedes mayEnd next next')

include precedes

theorem Precedes.kind_ne {kind : Kind} (other : next.kind ≠ kind) (going : Kind.endOfInput ≠ kind) :
    next'.kind ≠ kind :=
  precedes.holds (fun own _ => own ≠ kind) (fun _ => going) other

theorem Precedes.kind_eq {kind : Kind} (same : next.kind = kind) (stays : mayEnd = false) :
    next'.kind = kind := by
  rcases precedes with ⟨own, -⟩ | ⟨ends, -⟩
  · exact own.trans same
  · rw [stays] at ends
    cases ends

theorem Precedes.extendsOperand (ends : extendsOperand next = false) :
    extendsOperand next' = false := by
  unfold Grammar.extendsOperand at ends ⊢
  rcases precedes with ⟨kind, line⟩ | ⟨-, ended⟩
  · rwa [kind, line]
  · rw [ended]

theorem Precedes.extendsInfix {least : Nat} (ends : extendsInfix least next = false) :
    extendsInfix least next' = false :=
  precedes.holds (fun kind _ => kind.precedence?.any (least ≤ ·) = false) (fun _ => rfl) ends

theorem Precedes.isAssignment (ends : next.kind.isAssignment = false) :
    next'.kind.isAssignment = false :=
  precedes.holds (fun kind _ => kind.isAssignment = false) (fun _ => rfl) ends

theorem Precedes.contains {kinds : List Kind} (ends : kinds.contains next.kind)
    (closes : kinds.contains .endOfInput) : kinds.contains next'.kind :=
  precedes.holds (fun kind _ => kinds.contains kind) (fun _ => closes) ends

theorem Precedes.endsStatement (ends : endsStatement next) : endsStatement next' :=
  precedes.holds (fun kind line => ([Kind.rightBrace, .endOfInput].contains kind || line))
    (fun _ => rfl) ends

theorem Precedes.endsReturn (ends : endsReturn next) : endsReturn next' :=
  precedes.holds
    (fun kind line => ([Kind.semicolon, .rightBrace, .endOfInput].contains kind || line))
    (fun _ => rfl) ends

theorem Precedes.closesFunction (ends : closesFunction next = false) :
    closesFunction next' = false :=
  precedes.holds (fun kind line => (decide (kind = .semicolon) && !line) = false) (fun _ => rfl) ends

end Following

section Recasting

def Category.lists : Category → Bool
  | .deeper category => category.lists
  | .separated item => item.isFull && item.lists
  | _ => true

variable {change : Token → Token} {levels levels' : Nat} {category : Category} {trees : List Tree}
  {next next' : Token}

theorem Derives.recast (alike : ∀ token, (change token).toLexeme = token.toLexeme)
    (derived : Derives levels category trees next) (lists : category.lists)
    (enough : levels ≤ levels')
    (kept : KeepsAfter change trees) (precedes : Precedes category.mayEnd next next') :
    Derives levels' category (trees.map (·.recast change)) next' := by
  have same := kind_change alike
  have own {token : Token} {kind : Kind} (is : token.kind = kind) : (change token).kind = kind :=
    (same token).trans is
  induction derived generalizing levels' next' with
    (try simp only [List.map_cons, List.map_append, List.map_nil, Tree.recast_node, Tree.recast_leaf]
     try simp only [List.append_assoc, List.cons_append, List.nil_append, keepsAfter_node,
       keepsAfter_leaf, keeps_append, keeps_leaf, keeps_node, keeps_nil, keeps_cons _ (_ :: _),
       and_true] at kept)
  | deeper _ ih =>
    obtain ⟨inner, rfl⟩ := Nat.exists_eq_add_of_le' (Nat.le_trans (Nat.le_add_left 1 _) enough)
    exact .deeper (ih lists (Nat.le_of_succ_le_succ enough) kept precedes)
  | reference isName | thisObject isName | baseObject isName | literal isName | malformed isName =>
    constructor
    rwa [same]
  | rootReference areColons isName =>
    exact .rootReference (own areColons) (own isName)
  | parentheses opens between closes ih =>
    exact .parentheses (own opens)
      (ih rfl enough kept.1.after (precedes_change alike kept.2)) (own closes)
  | parenthesized inside ih =>
    exact .parenthesized (ih rfl enough kept precedes)
  | array opens between closes ih =>
    exact .array (own opens) (ih rfl enough kept.1.after (precedes_change alike kept.2))
      (own closes)
  | table opens between closes ih =>
    exact .table (own opens) (ih rfl enough kept.1.after (precedes_change alike kept.2))
      (own closes)
  | functionLiteral isWord head inside headIh insideIh =>
    exact .functionLiteral (own isWord)
      (headIh rfl enough kept.1.after (precedes.nextOf alike kept.2))
      (insideIh rfl enough kept.2.after precedes)
  | lambdaBlock isSign head inside headIh insideIh =>
    exact .lambdaBlock (own isSign)
      (headIh rfl enough kept.1.after (precedes.nextOf alike kept.2))
      (insideIh rfl enough kept.2.after precedes)
  | lambda isSign head noBlock inside headIh insideIh =>
    rw [← lambdaLabel_recast alike]
    exact .lambda (own isSign)
      (headIh rfl enough kept.1.after (precedes.nextOf alike kept.2))
      (fun opens => noBlock ((kind_nextOf_recast alike inside.full _ _).symm.trans opens))
      (insideIh rfl enough kept.2.after precedes)
  | plainOperand start ih => exact .plainOperand (ih rfl enough kept precedes)
  | member object isDot isName ih =>
    rw [keepsAfter_cons object.full, keeps_leaf] at kept
    exact .member (ih rfl enough kept.1 (precedes_change alike kept.2.1)) (own isDot)
      (own isName)
  | @call _ _ operand list called given calledIh givenIh =>
    rw [← makeCall_recast alike]
    have parts : KeepsAfter change [operand, list] := by
      rcases label_makeCall operand list with shape | shape <;> simpa [shape] using kept
    rw [keepsAfter_cons called.full] at parts
    exact .call (calledIh rfl enough parts.1 (precedes.nextOf alike parts.2))
      (givenIh rfl enough parts.2.after precedes)
  | index object opens sameLine between closes objectIh betweenIh =>
    rw [keepsAfter_cons object.full, keeps_leaf, keeps_cons, keeps_leaf] at kept
    obtain ⟨before, line, inside, last, -⟩ := kept
    exact .index (objectIh rfl enough before (precedes_change alike line)) (own opens)
      (line.trans sameLine) (betweenIh rfl enough inside.after (precedes_change alike last))
      (own closes)
  | postUpdate updated isUpdate sameLine ih =>
    rw [keepsAfter_cons updated.full, keeps_leaf] at kept
    refine .postUpdate (ih rfl enough kept.1 (precedes_change alike kept.2.1)) ?_
      (kept.2.1.trans sameLine)
    rwa [same]
  | operand chain ends ih =>
    exact .operand (ih rfl enough kept precedes) (precedes.extendsOperand ends)
  | unaryOperator isOperator applied ih =>
    exact .unaryOperator (by rwa [same]) (ih rfl enough kept.after precedes)
  | unaryOperand plain operand ih =>
    refine .unaryOperand ?_ (ih rfl enough kept precedes)
    exact (congrArg Kind.isUnary (kind_nextOf_recast alike operand.full _ _)).trans plain
  | firstOperand start ih => exact .firstOperand (ih rfl enough kept precedes)
  | infixOperator start binds tight applied startIh appliedIh =>
    rw [keepsAfter_cons start.full, keeps_leaf] at kept
    rw [← same]
    exact .infixOperator (startIh rfl enough kept.1 (precedes_change alike kept.2.1)) (by rwa [same])
      tight (appliedIh rfl enough kept.2.2.after precedes)
  | binary chain ends ih =>
    exact .binary (ih rfl enough kept precedes) (precedes.extendsInfix ends)
  | noChoice condition ends ih =>
    exact .noChoice (ih rfl enough kept precedes) (precedes.kind_ne ends (by decide))
  | choice tested asks either parts other testedIh eitherIh otherIh =>
    rw [keepsAfter_cons tested.full, keeps_leaf, keeps_cons, keeps_leaf] at kept
    obtain ⟨before, question, first, colon, second⟩ := kept
    exact .choice (testedIh rfl enough before (precedes_change alike question)) (own asks)
      (eitherIh rfl enough first.after (precedes_change alike colon)) (own parts)
      (otherIh rfl enough second.after precedes)
  | noAssignment value ends ih =>
    exact .noAssignment (ih rfl enough kept precedes) (precedes.isAssignment ends)
  | assignment assigned isOperator given assignedIh givenIh =>
    rw [keepsAfter_cons assigned.full, keeps_leaf] at kept
    rw [← same]
    exact .assignment (assignedIh rfl enough kept.1 (precedes_change alike kept.2.1)) (by rwa [same])
      (givenIh rfl enough kept.2.2.after precedes)
  | lastSeparated last ends ih =>
    rw [Category.lists, Bool.and_eq_true] at lists
    exact .lastSeparated (ih lists.2 enough kept precedes) (precedes.kind_ne ends (by decide))
  | moreSeparated first isComma others firstIh othersIh =>
    have full := Bool.and_eq_true_iff.mp lists
    rw [keepsAfter_cons (first.full full.1), keeps_leaf] at kept
    exact .moreSeparated (firstIh full.2 enough kept.1 (precedes_change alike kept.2.1))
      (own isComma) (othersIh lists enough kept.2.2.after precedes)
  | noArguments opens closes =>
    exact .noArguments (own opens) (own closes)
  | arguments opens present between closes ih =>
    exact .arguments (own opens)
      (fun closes => present ((kind_nextOf_recast alike between.full _ _).symm.trans closes))
      (ih rfl enough kept.1.after (precedes_change alike kept.2)) (own closes)
  | variadic areDots =>
    exact .variadic (own areDots)
  | parameter isName ends =>
    exact .parameter (own isName) (precedes.kind_ne ends (by decide))
  | parameterDefault isName isAssign given ih =>
    exact .parameterDefault (own isName) (own isAssign)
      (ih rfl enough kept.2.after precedes)
  | noParameter ends => exact .noParameter (precedes.kind_eq ends rfl)
  | lastParameter last ends ih =>
    exact .lastParameter (ih rfl enough kept precedes.free)
      (precedes.kind_ne ends (by decide))
  | moreParameters first isComma others firstIh othersIh =>
    rw [keepsAfter_cons first.full, keeps_leaf] at kept
    exact .moreParameters (firstIh rfl enough kept.1 (precedes_change alike kept.2.1))
      (own isComma) (othersIh rfl enough kept.2.2.after precedes)
  | parameters opens between closes ih =>
    exact .parameters (own opens) (ih rfl enough kept.1.after (precedes_change alike kept.2))
      (own closes)
  | noItem ends => exact .noItem (precedes.contains ends rfl)
  | noEntry ends => exact .noEntry (precedes.contains ends rfl)
  | noClause ends => exact .noClause (precedes.contains ends rfl)
  | item goesOn first noComma others firstIh othersIh =>
    rw [keepsAfter_cons first.full] at kept
    have follows := precedes.nextOf alike kept.2
    exact .item ((congrArg ([Kind.rightBracket, .endOfInput].contains ·)
        (kind_starts alike first.full _ _ _ _)).trans goesOn)
      (firstIh rfl enough kept.1 follows) (follows.kind_ne noComma (by decide))
      (othersIh rfl enough kept.2.after precedes)
  | itemComma goesOn first isComma others firstIh othersIh =>
    rw [keepsAfter_cons first.full, keeps_leaf] at kept
    exact .itemComma ((congrArg ([Kind.rightBracket, .endOfInput].contains ·)
        (kind_starts alike first.full _ _ _ _)).trans goesOn)
      (firstIh rfl enough kept.1 (precedes_change alike kept.2.1)) (own isComma)
      (othersIh rfl enough kept.2.2.after precedes)
  | oneEntry goesOn first noComma others firstIh othersIh =>
    rw [keepsAfter_cons first.full] at kept
    have follows := precedes.nextOf alike kept.2
    exact .oneEntry ((congrArg ([Kind.rightBrace, .endOfInput].contains ·)
        (kind_starts alike first.full _ _ _ _)).trans goesOn)
      (firstIh rfl enough kept.1 follows) (follows.kind_ne noComma (by decide))
      (othersIh rfl enough kept.2.after precedes)
  | entryComma goesOn first isComma others firstIh othersIh =>
    rw [keepsAfter_cons first.full, keeps_leaf] at kept
    exact .entryComma ((congrArg ([Kind.rightBrace, .endOfInput].contains ·)
        (kind_starts alike first.full _ _ _ _)).trans goesOn)
      (firstIh rfl enough kept.1 (precedes_change alike kept.2.1)) (own isComma)
      (othersIh rfl enough kept.2.2.after precedes)
  | slot isName isAssign given ih =>
    exact .slot (own isName) (own isAssign)
      (ih rfl enough kept.2.after precedes)
  | quotedSlot isString isColon given ih =>
    exact .quotedSlot (own isString) (own isColon)
      (ih rfl enough kept.2.after precedes)
  | computedSlot opens named closes isAssign given namedIh givenIh =>
    obtain ⟨key, closer, -, value⟩ := kept
    exact .computedSlot (own opens) (namedIh rfl enough key.after (precedes_change alike closer))
      (own closes) (own isAssign)
      (givenIh rfl enough value.after precedes)
  | method isWord isName head inside headIh insideIh =>
    exact .method (own isWord) (own isName)
      (headIh rfl enough kept.2.1.after (precedes.nextOf alike kept.2.2))
      (insideIh rfl enough kept.2.2.after precedes)
  | skippedEntry present =>
    rw [errorNode, Tree.recast_node, Tree.recast_leaves]
    exact .skippedEntry (by simpa using present)
  | skippedUnit present =>
    rw [errorNode, Tree.recast_node, Tree.recast_leaves]
    exact .skippedUnit (by simpa using present)
  | @noStatement _ closers _ ends =>
    exact .noStatement (precedes.holds
      (fun kind _ => kind = .endOfInput ∨ closers.contains kind) (fun _ => .inl rfl) ends)
  | statements goesOn isOpen first others firstIh othersIh =>
    rw [keepsAfter_cons first.full] at kept
    have starts := kind_starts alike first.full
    exact .statements (fun ended => goesOn ((starts _ _ _ _).symm.trans ended))
      ((congrArg (List.contains _ ·) (starts _ _ _ _)).trans isOpen)
      (firstIh rfl enough kept.1 (precedes.nextOf alike kept.2))
      (othersIh rfl enough kept.2.after precedes)
  | unit sound ih => exact .unit (ih rfl enough kept precedes)
  | block opens between closes ih =>
    exact .block (own opens) (ih rfl enough kept.1.after (precedes_change alike kept.2))
      (own closes)
  | semicolon isSemicolon =>
    exact .semicolon (own isSemicolon)
  | noSemicolon missing ends =>
    exact .noSemicolon (precedes.kind_ne missing (by decide)) (precedes.endsStatement ends)
  | blockStatement inside ih =>
    exact .blockStatement (ih rfl enough kept precedes)
  | emptyStatement isSemicolon =>
    exact .emptyStatement (own isSemicolon)
  | ifStatement isWord tested governed ends testedIh governedIh =>
    exact .ifStatement (own isWord)
      (testedIh rfl enough kept.1.after (precedes.nextOf alike kept.2))
      (governedIh rfl enough kept.2.after precedes)
      (precedes.kind_ne ends (by decide))
  | ifElseStatement isWord tested governed isElse alternative testedIh governedIh alternativeIh =>
    obtain ⟨condition, first, word, second⟩ := kept
    exact .ifElseStatement (own isWord)
      (testedIh rfl enough condition.after ((precedes_change alike word).nextOf alike first))
      (governedIh rfl enough first.after (precedes_change alike word)) (own isElse)
      (alternativeIh rfl enough second.after precedes)
  | whileStatement isWord tested governed testedIh governedIh =>
    exact .whileStatement (own isWord)
      (testedIh rfl enough kept.1.after (precedes.nextOf alike kept.2))
      (governedIh rfl enough kept.2.after precedes)
  | doWhileStatement isWord governed isWhile tested ends governedIh testedIh endsIh =>
    obtain ⟨body, word, condition, ending⟩ := kept
    exact .doWhileStatement (own isWord)
      (governedIh rfl enough body.after (precedes_change alike word)) (own isWhile)
      (testedIh rfl enough condition.after (precedes.nextOf alike ending))
      (endsIh rfl enough ending.after precedes)
  | declarator isName ends =>
    exact .declarator (own isName) (precedes.kind_ne ends (by decide))
  | declaratorValue isName isAssign given ih =>
    exact .declaratorValue (own isName) (own isAssign)
      (ih rfl enough kept.2.after precedes)
  | localDeclaration isWord declared ends declaredIh endsIh =>
    exact .localDeclaration (own isWord)
      (declaredIh rfl enough kept.1.after (precedes.nextOf alike kept.2))
      (endsIh rfl enough kept.2.after precedes)
  | constDeclaration isWord isName isAssign given ends givenIh endsIh =>
    rw [keeps_cons] at kept
    obtain ⟨-, -, value, ending⟩ := kept
    exact .constDeclaration (own isWord) (own isName) (own isAssign)
      (givenIh rfl enough value.after (precedes.nextOf alike ending))
      (endsIh rfl enough ending.after precedes)
  | forLocal isWord declared ih =>
    exact .forLocal (own isWord) (ih rfl enough kept.after precedes.free)
  | forNothing ends => exact .forNothing (precedes.kind_eq ends rfl)
  | forExpression noLocal present value ih =>
    have starts := kind_starts alike value.full [] []
    exact .forExpression (fun isLocal => noLocal ((starts _ _).symm.trans isLocal))
      (fun ended => present ((starts _ _).symm.trans ended))
      (ih rfl enough kept precedes.free)
  | noExpression ends => exact .noExpression (precedes.kind_eq ends rfl)
  | someExpression present value ih =>
    exact .someExpression
      (fun ended => present ((kind_starts alike value.full [] [] _ _).symm.trans ended))
      (ih rfl enough kept precedes.free)
  | forStatement isWord opens starts firstIs tested secondIs stepped closes governed startsIh testedIh
      steppedIh governedIh =>
    obtain ⟨-, init, first, condition, second, step, closer, body⟩ := kept
    exact .forStatement (own isWord) (own opens)
      (startsIh rfl enough init.after (precedes_change alike first)) (own firstIs)
      (testedIh rfl enough condition.after (precedes_change alike second)) (own secondIs)
      (steppedIh rfl enough step.after (precedes_change alike closer)) (own closes)
      (governedIh rfl enough body.after precedes)
  | foreachStatement isWord opens named isIn iterated closes governed iteratedIh governedIh =>
    obtain ⟨-, -, -, container, closer, body⟩ := kept
    exact .foreachStatement (own isWord) (own opens)
      (loopNames_recast alike named) (own isIn)
      (iteratedIh rfl enough container.after (precedes_change alike closer)) (own closes)
      (governedIh rfl enough body.after precedes)
  | caseBody inside ih =>
    exact .caseBody (ih rfl enough kept precedes)
  | caseClause isWord compared isColon inside comparedIh insideIh =>
    obtain ⟨value, colon, body⟩ := kept
    exact .caseClause (own isWord)
      (comparedIh rfl enough value.after (precedes_change alike colon)) (own isColon)
      (insideIh rfl enough body.after precedes)
  | defaultClause isWord isColon inside ih =>
    exact .defaultClause (own isWord) (own isColon)
      (ih rfl enough kept.2.after precedes)
  | clauses goesOn first others firstIh othersIh =>
    rw [keepsAfter_cons first.full] at kept
    exact .clauses ((congrArg ([Kind.rightBrace, .endOfInput].contains ·)
        (kind_starts alike first.full _ _ _ _)).trans goesOn)
      (firstIh rfl enough kept.1 (precedes.nextOf alike kept.2))
      (othersIh rfl enough kept.2.after precedes)
  | switchStatement isWord tested opens between closes testedIh betweenIh =>
    obtain ⟨subject, opener, clauses, closer⟩ := kept
    exact .switchStatement (own isWord)
      (testedIh rfl enough subject.after (precedes_change alike opener)) (own opens)
      (betweenIh rfl enough clauses.after (precedes_change alike closer)) (own closes)
  | tryStatement isWord governed isCatch opens isName closes handled governedIh handledIh =>
    obtain ⟨body, word, -, -, -, handler⟩ := kept
    exact .tryStatement (own isWord)
      (governedIh rfl enough body.after (precedes_change alike word)) (own isCatch)
      (own opens) (own isName) (own closes)
      (handledIh rfl enough handler.after precedes)
  | pathEnd ends =>
    exact .pathEnd (precedes.holds (fun kind _ => [Kind.doubleColon, .dot].contains kind = false)
      (fun _ => rfl) ends)
  | pathStep separates isName others ih =>
    exact .pathStep (by rwa [same]) (own isName) (ih rfl enough kept.2.after precedes)
  | plainName isName goesOn ih =>
    exact .plainName (own isName) (ih rfl enough kept.after precedes)
  | rootedName areColons isName goesOn ih =>
    exact .rootedName (own areColons) (own isName)
      (ih rfl enough kept.2.after precedes)
  | @functionDeclaration _ after name list body scope ending keyword placed isWord named head inside ends
      namedIh headIh insideIh =>
    have parts : Keeps change ([name, list, body] ++ ending.map .leaf) := by
      rcases placed with rfl | ⟨word, -, rfl⟩
      · exact (keepsAfter_leaf _ _).mp kept
      · exact ((keeps_leaf _ _).mp ((keepsAfter_leaf _ _).mp kept)).2
    obtain ⟨nameKept, parts⟩ := (keeps_cons _ _).mp parts
    obtain ⟨listKept, parts⟩ := (keeps_cons _ _).mp parts
    obtain ⟨bodyKept, endingKept⟩ : Keeps change [body] ∧ Keeps change (ending.map .leaf) :=
      (keeps_cons _ _).mp parts
    have ended : Precedes true (ending.headD after) ((ending.map change).headD next') := by
      have follows := precedes.nextOf alike endingKept
      rwa [nextOf, nextOf, Tree.recast_leaves, Tree.tokensOf_leaves, Tree.tokensOf_leaves] at follows
    have bodyNext := ended.nextOf alike bodyKept
    rw [Tree.recast_leaves, Tree.recast_leaves]
    refine .functionDeclaration ?_ (own isWord)
      (namedIh rfl enough nameKept.after (bodyNext.nextOf alike listKept))
      (headIh rfl enough listKept.after bodyNext)
      (insideIh rfl enough bodyKept.after ended) ?_
    · rcases placed with rfl | ⟨word, isLocal, rfl⟩
      · exact .inl rfl
      · exact .inr ⟨change word, (same _).trans isLocal, rfl⟩
    · rcases ends with ⟨rfl, open_⟩ | ⟨semicolon, closes, rfl⟩
      · exact .inl ⟨rfl, precedes.closesFunction open_⟩
      · refine .inr ⟨change semicolon, ?_, rfl⟩
        have line := ((keeps_leaf _ _).mp endingKept).1
        rwa [closesFunction, same, line]
  | returnNothing isWord nothing ends ih =>
    exact .returnNothing (own isWord) ((precedes.nextOf alike kept).endsReturn nothing)
      (ih rfl enough kept.after precedes)
  | returnValue isWord present given ends givenIh endsIh =>
    rw [keeps_cons] at kept
    exact .returnValue (own isWord)
      ((endsReturn_starts alike given.full kept.1 _ _).trans present)
      (givenIh rfl enough kept.1.after (precedes.nextOf alike kept.2))
      (endsIh rfl enough kept.2.after precedes)
  | breakStatement isWord ends ih =>
    exact .breakStatement (own isWord)
      (ih rfl enough kept.after precedes)
  | continueStatement isWord ends ih =>
    exact .continueStatement (own isWord)
      (ih rfl enough kept.after precedes)
  | throwStatement isWord thrown ends thrownIh endsIh =>
    rw [keeps_cons] at kept
    exact .throwStatement (own isWord)
      (thrownIh rfl enough kept.1.after (precedes.nextOf alike kept.2))
      (endsIh rfl enough kept.2.after precedes)
  | expressionStatement plain evaluated ends evaluatedIh endsIh =>
    rw [keepsAfter_cons evaluated.full] at kept
    exact .expressionStatement ((congrArg leadsStatement
        (kind_starts alike evaluated.full [] [] _ _)).trans plain)
      (evaluatedIh rfl enough kept.1 (precedes.nextOf alike kept.2))
      (endsIh rfl enough kept.2.after precedes)

end Recasting

end Grammar

end Squirrel
