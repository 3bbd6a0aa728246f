import Squirrel.Proofs.Grammar.Soundness

/-! What each rule reads, given what the rules it calls read. -/

namespace Squirrel.Grammar

open Squirrel.Tree (tokensOf nextOf)

/-- In front of `next` a rule reads just these tokens and gives `value`. -/
def Accepts {α : Type} (rule : Rule α) (tokens : List Token) (value : α) (next : Token) : Prop :=
  ∀ rest diagnostics,
    rule ⟨tokens ++ next :: rest, diagnostics⟩ = .ok value ⟨next :: rest, diagnostics⟩

section Steps

variable {α β : Type} {rule : Rule α} {front back tokens : List Token} {next token : Token}
  {value : α} {result : β}

theorem append_cons (tokens : List Token) (next : Token) (rest : List Token) :
    ∃ more, tokens ++ next :: rest = tokens.headD next :: more := by
  cases tokens with
  | nil => exact ⟨rest, rfl⟩
  | cons token tokens => exact ⟨tokens ++ next :: rest, rfl⟩

@[simp] theorem headD_append (front back : List Token) (next : Token) :
    (front ++ back).headD next = front.headD (back.headD next) := by
  cases front <;> rfl

theorem Accepts.pure : Accepts (pure value) [] value next :=
  fun _ _ => rfl

theorem Accepts.bind {following : α → Rule β} {middle : Token}
    (first : Accepts rule front value middle) (second : Accepts (following value) back result next)
    (here : back.headD next = middle := by rfl) :
    Accepts (rule >>= following) (front ++ back) result next := by
  subst here
  intro rest diagnostics
  obtain ⟨more, shape⟩ := append_cons back next rest
  have ran := first more diagnostics
  rw [← shape] at ran
  change EStateM.bind rule following _ = _
  unfold EStateM.bind
  rw [List.append_assoc, ran]
  exact second rest diagnostics

theorem Accepts.andThen {following : α → Rule β} (first : Accepts rule [token] value (back.headD next))
    (second : Accepts (following value) back result next) :
    Accepts (rule >>= following) (token :: back) result next :=
  first.bind second

theorem Accepts.finish {following : α → Rule β} (first : Accepts rule tokens value next)
    (second : Accepts (following value) [] result next) :
    Accepts (rule >>= following) tokens result next := by
  have both : Accepts (rule >>= following) (tokens ++ []) result next := Accepts.bind first second
  rwa [List.append_nil] at both

theorem accepts_current {f : Token → Rule β}
    (rest : Accepts (f (tokens.headD next)) tokens result next) :
    Accepts (current >>= f) tokens result next := by
  intro later diagnostics
  obtain ⟨more, shape⟩ := append_cons tokens next later
  have ran := rest later diagnostics
  rw [shape] at ran ⊢
  exact ran

theorem accepts_take (token next : Token) : Accepts take [token] (.leaf token) next :=
  fun _ _ => rfl

variable {kind : Kind} {following : Bool → Rule β}

theorem accepts_sees (isKind : (tokens.headD next).kind = kind)
    (rest : Accepts (following true) tokens result next) :
    Accepts (sees kind >>= following) tokens result next := by
  have decided : decide ((tokens.headD next).kind = kind) := decide_eq_true isKind
  refine accepts_current (f := fun token => following (decide (token.kind = kind))) ?_
  rwa [decided]

theorem accepts_misses (otherKind : (tokens.headD next).kind ≠ kind)
    (rest : Accepts (following false) tokens result next) :
    Accepts (sees kind >>= following) tokens result next := by
  have decided : decide ((tokens.headD next).kind = kind) = false := decide_eq_false otherKind
  refine accepts_current (f := fun token => following (decide (token.kind = kind))) ?_
  rwa [decided]

theorem accepts_seesAny {kinds : List Kind} {found : Bool}
    (decided : kinds.contains (tokens.headD next).kind = found)
    (rest : Accepts (following found) tokens result next) :
    Accepts (seesAny kinds >>= following) tokens result next := by
  refine accepts_current (f := fun token => following (kinds.contains token.kind)) ?_
  rwa [decided]

theorem accepts_onNewLine
    (rest : Accepts (following (tokens.headD next).startsLine) tokens result next) :
    Accepts (onNewLine >>= following) tokens result next :=
  accepts_current (f := fun token => following token.startsLine) rest

theorem accepts_then {condition : Prop} [Decidable condition] {first second : Rule β}
    (holds : condition) (taken : Accepts first tokens result next) :
    Accepts (if condition then first else second) tokens result next := by
  rwa [if_pos holds]

theorem accepts_else {condition : Prop} [Decidable condition] {first second : Rule β}
    (fails : ¬ condition) (taken : Accepts second tokens result next) :
    Accepts (if condition then first else second) tokens result next := by
  rwa [if_neg fails]

theorem accepts_next {following : Option Token → Rule β}
    (rest : Accepts (following (some (tokens.headD next))) (token :: tokens) result next) :
    Accepts (next? 1 >>= following) (token :: tokens) result next := by
  intro later diagnostics
  obtain ⟨more, shape⟩ := append_cons tokens next later
  have ran := rest later diagnostics
  rw [List.cons_append, shape] at ran ⊢
  exact ran

theorem accepts_expectOr {fault : SyntaxFault} (isKind : token.kind = kind) :
    Accepts (expectOr kind fault) [token] (.leaf token) next :=
  accepts_sees isKind (accepts_take token next)

theorem accepts_expect (isKind : token.kind = kind) :
    Accepts (expect kind) [token] (.leaf token) next :=
  accepts_current (accepts_expectOr isKind)

theorem accepts_some (isKind : token.kind = kind) :
    Accepts (accept? kind) [token] (some (.leaf token)) next :=
  accepts_sees isKind (fun _ _ => rfl)

theorem accepts_none (otherKind : next.kind ≠ kind) : Accepts (accept? kind) [] none next :=
  accepts_misses otherKind (fun _ _ => rfl)

theorem accepts_optional (isKind : token.kind = kind) :
    Accepts (optional kind) [token] [.leaf token] next :=
  accepts_sees isKind (fun _ _ => rfl)

theorem accepts_missing (otherKind : next.kind ≠ kind) : Accepts (optional kind) [] [] next :=
  accepts_misses otherKind (fun _ _ => rfl)

theorem accepts_recovering {rule : Rule Tree} {skip : State → State → List Token} {tree : Tree}
    (sound : Accepts rule tokens tree next) : Accepts (recovering rule skip) tokens tree next := by
  intro rest diagnostics
  rw [recovering, sound rest diagnostics]

variable {step : α → Rule (Option α)}

theorem accepts_iterate_stop (stops : Accepts (step value) [] none next) :
    Accepts (iterate step value) [] value next := by
  intro rest diagnostics
  rw [iterate, stops rest diagnostics]

theorem accepts_iterate_more {further last : α}
    (first : Accepts (step value) front (some further) (back.headD next)) (present : front ≠ [])
    (others : Accepts (iterate step further) back last next) :
    Accepts (iterate step value) (front ++ back) last next := by
  intro rest diagnostics
  obtain ⟨more, shape⟩ := append_cons back next rest
  have ran := first more diagnostics
  rw [← shape] at ran
  have shorter : (back ++ next :: rest).length < (front ++ (back ++ next :: rest)).length := by
    have filled := List.length_pos_iff.2 present
    simp only [List.length_append]
    omega
  rw [iterate, List.append_assoc, ran]
  simp only [if_pos shorter]
  exact others rest diagnostics

end Steps

def AcceptsTree (rule : Rule Tree) (tree : Tree) (next : Token) : Prop :=
  Accepts rule (tokensOf [tree]) tree next

def AcceptsRun (rule : Rule (List Tree)) (trees : List Tree) (next : Token) : Prop :=
  Accepts rule (tokensOf trees) trees next

/-- Repeating a step, after whatever was read before, reads a run of trees. -/
def Repeats (step : Rule (Option (List Tree))) (trees : List Tree) (next : Token) : Prop :=
  ∀ read, Accepts (iterate (gather step) read) (tokensOf trees) (read ++ trees) next

/-- Reading a tree leads to the repetition of a step from that tree on. -/
def Arrives (rule : Rule Tree) (step : Tree → Rule (Option Tree)) (tree : Tree) (next : Token) :
    Prop :=
  ∀ rest diagnostics, rule ⟨tokensOf [tree] ++ next :: rest, diagnostics⟩ =
    iterate step tree ⟨next :: rest, diagnostics⟩

section Loops

variable {rule : Rule Tree} {step : Rule (Option (List Tree))} {growth : Tree → Rule (Option Tree)}
  {first others : List Tree} {tree further : Tree} {tokens : List Token} {next : Token}

theorem Repeats.many (repeats : Repeats step others next) : AcceptsRun (many step) others next :=
  repeats []

theorem repeats_nil (stops : Accepts step [] none next) : Repeats step [] next := by
  intro read
  rw [List.append_nil]
  exact accepts_iterate_stop (stops.finish (fun _ _ => rfl))

theorem repeats_append (once : Accepts step (tokensOf first) (some first) (nextOf others next))
    (present : tokensOf first ≠ []) (again : Repeats step others next) :
    Repeats step (first ++ others) next := by
  intro read
  rw [Tree.tokensOf_append, ← List.append_assoc]
  exact accepts_iterate_more (once.finish (fun _ _ => rfl)) present (again (read ++ first))

theorem arrives_start {start : Rule Tree} (read : AcceptsTree start tree next) :
    Arrives (start >>= iterate growth) growth tree next := by
  intro rest diagnostics
  change EStateM.bind start (iterate growth) _ = _
  unfold EStateM.bind
  rw [read rest diagnostics]

theorem Arrives.grow (arrives : Arrives rule growth tree (tokens.headD next))
    (grows : Accepts (growth tree) tokens (some further) next) (present : tokens ≠ [])
    (shape : tokensOf [further] = tokensOf [tree] ++ tokens) :
    Arrives rule growth further next := by
  intro rest diagnostics
  obtain ⟨more, split⟩ := append_cons tokens next rest
  have shorter : (next :: rest).length < (tokens ++ next :: rest).length := by
    have filled := List.length_pos_iff.2 present
    rw [List.length_append]
    omega
  have ran := arrives more diagnostics
  rw [← split] at ran
  rw [shape, List.append_assoc, ran, iterate, grows rest diagnostics]
  simp only [if_pos shorter]

theorem Arrives.stop (arrives : Arrives rule growth tree next)
    (stops : Accepts (growth tree) [] none next) : AcceptsTree rule tree next := by
  intro rest diagnostics
  rw [arrives rest diagnostics]
  exact accepts_iterate_stop stops rest diagnostics

end Loops

variable {opener closer : Token} {keyword : Token} {name : Token}

section Expressions

variable {rules : Rules} {next : Token}

theorem accepts_parentheses {inner : Tree} (opens : opener.kind = .leftParen)
    (between : AcceptsTree rules.expression inner closer) (closes : closer.kind = .rightParen) :
    Accepts (parentheses rules) (opener :: (tokensOf [inner] ++ [closer]))
      [.leaf opener, inner, .leaf closer] next :=
  (accepts_expect opens).andThen (between.bind ((accepts_expect closes).finish .pure))

def Lists (item : Rule Tree) (trees : List Tree) (next : Token) : Prop :=
  ∃ first others, trees = first :: others ∧ AcceptsTree item first (nextOf others next) ∧
    Repeats (commaRound item) others next

variable {item : Rule Tree}

theorem lists_one {tree : Tree} (last : AcceptsTree item tree next) (ends : next.kind ≠ .comma) :
    Lists item [tree] next := by
  refine ⟨tree, [], rfl, ?_, ?_⟩
  · rwa [Tree.nextOf_nil]
  · exact repeats_nil ((accepts_none ends).finish .pure)

variable {comma : Token}

theorem lists_cons {tree : Tree} {trees : List Tree} (first : AcceptsTree item tree comma)
    (isComma : comma.kind = .comma) (others : Lists item trees next) :
    Lists item (tree :: .leaf comma :: trees) next := by
  obtain ⟨second, more, rfl, read, again⟩ := others
  refine ⟨tree, .leaf comma :: second :: more, rfl, ?_, ?_⟩
  · rwa [Tree.nextOf_leaf]
  · have once : Accepts (commaRound item) (comma :: tokensOf [second])
        (some [.leaf comma, second]) (nextOf more next) :=
      (accepts_some isComma).andThen (read.finish .pure)
    have shape : tokensOf [.leaf comma, second] = comma :: tokensOf [second] := by simp
    rw [← shape] at once
    exact repeats_append once (by simp) again

theorem Lists.accepts {trees : List Tree} (lists : Lists item trees next) :
    AcceptsRun (commaSeparated item) trees next := by
  obtain ⟨first, others, rfl, read, again⟩ := lists
  have both : Accepts (commaSeparated item) (tokensOf [first] ++ tokensOf others)
      (first :: others) next :=
    read.bind (again.many.finish .pure)
  simpa [AcceptsRun] using both

theorem accepts_noArguments (opens : opener.kind = .leftParen) (closes : closer.kind = .rightParen)
    :
    Accepts (arguments rules) [opener, closer] (.node .arguments [.leaf opener, .leaf closer])
      next :=
  (accepts_expect opens).andThen
    (accepts_sees closes ((accepts_expect closes).finish .pure))

theorem accepts_arguments {values : List Tree} (opens : opener.kind = .leftParen)
    (present : (nextOf values closer).kind ≠ .rightParen)
    (between : Lists rules.expression values closer) (closes : closer.kind = .rightParen) :
    Accepts (arguments rules) (opener :: (tokensOf values ++ [closer]))
      (.node .arguments (.leaf opener :: values ++ [.leaf closer])) next := by
  refine (accepts_expect opens).andThen (accepts_misses ?_ ?_)
  · rwa [headD_append]
  · exact between.accepts.bind ((accepts_expect closes).finish .pure)

theorem accepts_variadic {dots : Token} (areDots : dots.kind = .ellipsis) :
    Accepts (parameter rules) [dots] (.node .parameter [.leaf dots]) next :=
  accepts_sees areDots ((accepts_take dots next).finish .pure)

theorem accepts_parameter (isName : name.kind = .identifier) (ends : next.kind ≠ .assign) :
    Accepts (parameter rules) [name] (.node .parameter [.leaf name]) next := by
  have noDots : name.kind ≠ .ellipsis := by rw [isName]; decide
  exact accepts_misses noDots (accepts_current ((accepts_expectOr isName).andThen
    ((accepts_none ends).finish .pure)))

variable {value : Tree}

theorem accepts_parameterDefault {name assign : Token} (isName : name.kind = .identifier)
    (isAssign : assign.kind = .assign) (given : AcceptsTree rules.ternary value next) :
    Accepts (parameter rules) (name :: assign :: tokensOf [value])
      (.node .parameter [.leaf name, .leaf assign, value]) next := by
  have noDots : name.kind ≠ .ellipsis := by rw [isName]; decide
  exact accepts_misses noDots (accepts_current ((accepts_expectOr isName).andThen
    ((accepts_some isAssign).andThen (given.finish .pure))))

def ListsParameters (rules : Rules) (trees : List Tree) (next : Token) : Prop :=
  ∀ read, ∃ isOpen, Accepts (iterate (parameterRound rules) (read, true)) (tokensOf trees)
    (read ++ trees, isOpen) next

theorem listsParameters_nil (ends : next.kind = .rightParen) : ListsParameters rules [] next := by
  intro read
  refine ⟨true, ?_⟩
  rw [List.append_nil]
  exact accepts_iterate_stop (accepts_sees ends .pure)

theorem accepts_closedParameters (read : List Tree) :
    Accepts (parameterRound rules (read, false)) [] none next := by
  by_cases closes : next.kind = .rightParen
  · exact accepts_sees closes .pure
  · exact accepts_misses closes .pure

theorem listsParameters_one {tree : Tree} (starts : (nextOf [tree] next).kind ≠ .rightParen)
    (present : tokensOf [tree] ≠ []) (last : AcceptsTree (parameter rules) tree next)
    (ends : next.kind ≠ .comma) : ListsParameters rules [tree] next := by
  intro read
  have once : Accepts (parameterRound rules (read, true)) (tokensOf [tree])
      (some (read ++ [tree], false)) next :=
    accepts_misses starts (last.finish ((accepts_none ends).finish .pure))
  have stops : Accepts (iterate (parameterRound rules) (read ++ [tree], false)) []
      (read ++ [tree], false) next :=
    accepts_iterate_stop (accepts_closedParameters (read ++ [tree]))
  have both := accepts_iterate_more once present stops
  rw [List.append_nil] at both
  exact ⟨false, both⟩

theorem listsParameters_cons {tree : Tree} {trees : List Tree}
    (starts : (nextOf [tree] comma).kind ≠ .rightParen)
    (first : AcceptsTree (parameter rules) tree comma) (isComma : comma.kind = .comma)
    (others : ListsParameters rules trees next) :
    ListsParameters rules (tree :: .leaf comma :: trees) next := by
  intro read
  obtain ⟨isOpen, again⟩ := others (read ++ [tree, .leaf comma])
  have once : Accepts (parameterRound rules (read, true)) (tokensOf [tree] ++ [comma])
      (some (read ++ [tree, .leaf comma], true)) (nextOf trees next) := by
    refine accepts_misses ?_ ?_
    · rwa [headD_append]
    · exact first.bind ((accepts_some isComma).finish .pure)
  have shape : tokensOf (tree :: .leaf comma :: trees) =
      tokensOf [tree] ++ [comma] ++ tokensOf trees := by simp
  have whole : read ++ tree :: .leaf comma :: trees =
      read ++ [tree, .leaf comma] ++ trees := by simp
  rw [shape, whole]
  exact ⟨isOpen, accepts_iterate_more once (by simp) again⟩

theorem accepts_parameters {list : List Tree} (opens : opener.kind = .leftParen)
    (between : ListsParameters rules list closer) (closes : closer.kind = .rightParen) :
    Accepts (parameters rules) (opener :: (tokensOf list ++ [closer]))
      (.node .parameters (.leaf opener :: list ++ [.leaf closer])) next := by
  obtain ⟨isOpen, all⟩ := between []
  have listed : AcceptsRun (parameterList rules) list closer := all.finish .pure
  exact (accepts_expect opens).andThen
    (listed.bind ((accepts_expect closes).finish .pure))

variable {list body : Tree}

theorem accepts_lambdaBlock {sign : Token} (isSign : sign.kind = .atSign)
    (head : AcceptsTree (parameters rules) list (nextOf [body] next))
    (isBlock : body.label? = some .block) (opens : (nextOf [body] next).kind = .leftBrace)
    (inside : AcceptsTree (block rules) body next) :
    Accepts (lambda rules) (sign :: (tokensOf [list] ++ tokensOf [body]))
      (.node .lambdaLiteral [.leaf sign, list, body]) next := by
  rw [← @lambdaLabel_block list body isBlock]
  exact (accepts_expect isSign).andThen
    (head.bind (accepts_sees opens (inside.finish .pure)))

theorem accepts_lambda {sign : Token} (isSign : sign.kind = .atSign)
    (head : AcceptsTree (parameters rules) list (nextOf [body] next))
    (noBlock : (nextOf [body] next).kind ≠ .leftBrace)
    (inside : AcceptsTree rules.expression body next) :
    Accepts (lambda rules) (sign :: (tokensOf [list] ++ tokensOf [body]))
      (.node (lambdaLabel list body) [.leaf sign, list, body]) next :=
  (accepts_expect isSign).andThen
    (head.bind (accepts_misses noBlock (inside.finish .pure)))

section Elements

variable {element : Rule Tree} {closers : List Kind} {tree : Tree} {trees : List Tree}

theorem repeats_noElement (ends : closers.contains next.kind) :
    Repeats (elementRound element closers) [] next :=
  repeats_nil (accepts_seesAny ends .pure)

theorem repeats_element (goesOn : closers.contains (nextOf (tree :: trees) next).kind = false)
    (present : tokensOf [tree] ≠ []) (first : AcceptsTree element tree (nextOf trees next))
    (noComma : (nextOf trees next).kind ≠ .comma)
    (others : Repeats (elementRound element closers) trees next) :
    Repeats (elementRound element closers) (tree :: trees) next := by
  have starts : nextOf (tree :: trees) next = (tokensOf [tree]).headD (nextOf trees next) := by
    simp [nextOf]
  rw [starts] at goesOn
  have once : Accepts (elementRound element closers) (tokensOf [tree]) (some [tree])
      (nextOf trees next) :=
    accepts_seesAny goesOn (first.finish ((accepts_missing noComma).finish .pure))
  exact repeats_append once present others

theorem repeats_elementComma
    (goesOn : closers.contains (nextOf (tree :: .leaf comma :: trees) next).kind = false)
    (first : AcceptsTree element tree comma) (isComma : comma.kind = .comma)
    (others : Repeats (elementRound element closers) trees next) :
    Repeats (elementRound element closers) (tree :: .leaf comma :: trees) next := by
  have shape : tokensOf [tree, .leaf comma] = tokensOf [tree] ++ [comma] := by simp
  have starts : nextOf (tree :: .leaf comma :: trees) next =
      (tokensOf [tree] ++ [comma]).headD (nextOf trees next) := by
    simp [nextOf]
  rw [starts] at goesOn
  have once : Accepts (elementRound element closers) (tokensOf [tree] ++ [comma])
      (some [tree, .leaf comma]) (nextOf trees next) :=
    accepts_seesAny goesOn
      (first.bind ((accepts_optional isComma).finish .pure))
  rw [← shape] at once
  exact repeats_append once (by simp) others

end Elements

theorem accepts_array {items : List Tree} (opens : opener.kind = .leftBracket)
    (between : Repeats (elementRound rules.expression [.rightBracket, .endOfInput]) items closer)
    (closes : closer.kind = .rightBracket) :
    Accepts (array rules) (opener :: (tokensOf items ++ [closer]))
      (.node .array (.leaf opener :: items ++ [.leaf closer])) next :=
  (accepts_expect opens).andThen
    (between.many.bind ((accepts_expect closes).finish .pure))

theorem accepts_table {entries : List Tree}
    (opens : opener.kind = .leftBrace)
    (between : Repeats (elementRound (recovering (tableEntry rules) skipFailedEntry)
      [.rightBrace, .endOfInput]) entries closer)
    (closes : closer.kind = .rightBrace) :
    Accepts (table rules) (opener :: (tokensOf entries ++ [closer]))
      (.node .table (.leaf opener :: entries ++ [.leaf closer])) next :=
  (accepts_expect opens).andThen
    (between.many.bind ((accepts_expect closes).finish .pure))

theorem accepts_slot {key assign : Token} (isName : key.kind = .identifier)
    (isAssign : assign.kind = .assign) (given : AcceptsTree rules.expression value next) :
    Accepts (tableEntry rules) (key :: assign :: tokensOf [value])
      (.node .tableSlot [.leaf key, .leaf assign, value]) next := by
  refine accepts_current (accepts_next (accepts_then ⟨isName, congrArg some isAssign⟩ ?_))
  exact (accepts_take key _).andThen
    ((accepts_take assign _).andThen (given.finish .pure))

theorem accepts_quotedSlot {key colon : Token} (isString : key.kind = .string)
    (isColon : colon.kind = .colon) (given : AcceptsTree rules.expression value next) :
    Accepts (tableEntry rules) (key :: colon :: tokensOf [value])
      (.node .tableQuoted [.leaf key, .leaf colon, value]) next := by
  refine accepts_current (accepts_next (accepts_else ?_ (accepts_else ?_
    (accepts_then ⟨isString, congrArg some isColon⟩ ?_))))
  · simp [isString]
  · simp [isString]
  · exact (accepts_take key _).andThen
      ((accepts_take colon _).andThen (given.finish .pure))

theorem accepts_computedSlot {key value : Tree} {opener closer assign : Token}
    (opens : opener.kind = .leftBracket) (named : AcceptsTree rules.expression key closer)
    (closes : closer.kind = .rightBracket) (isAssign : assign.kind = .assign)
    (given : AcceptsTree rules.expression value next) :
    Accepts (tableEntry rules) (opener :: (tokensOf [key] ++ closer :: assign :: tokensOf [value]))
      (.node .tableComputed [.leaf opener, key, .leaf closer, .leaf assign, value]) next := by
  refine accepts_current (accepts_next (accepts_else ?_ (accepts_then opens ?_)))
  · simp [opens]
  · exact (accepts_take opener _).andThen (named.bind ((accepts_expect closes).andThen
      ((accepts_expect isAssign).andThen (given.finish .pure))))

theorem accepts_method {keyword name : Token} (isWord : keyword.kind = .kwFunction)
    (isName : name.kind = .identifier)
    (head : AcceptsTree (parameters rules) list (nextOf [body] next))
    (inside : AcceptsTree (block rules) body next) :
    Accepts (tableEntry rules) (keyword :: name :: (tokensOf [list] ++ tokensOf [body]))
      (.node .tableMethod [.leaf keyword, .leaf name, list, body]) next := by
  refine accepts_current (accepts_next (accepts_else ?_ (accepts_else ?_
    (accepts_else ?_ (accepts_then isWord ?_)))))
  · simp [isWord]
  · simp [isWord]
  · simp [isWord]
  · exact (accepts_take keyword _).andThen ((accepts_expectOr isName).andThen
      (head.bind (inside.finish .pure)))

theorem accepts_functionLiteral (head : AcceptsTree (parameters rules) list (nextOf [body] next))
    (inside : AcceptsTree (block rules) body next) :
    Accepts (functionLiteral rules) (keyword :: (tokensOf [list] ++ tokensOf [body]))
      (.node .functionLiteral [.leaf keyword, list, body]) next :=
  (accepts_take keyword _).andThen (head.bind (inside.finish .pure))

theorem accepts_rootReference {colons name : Token} (isName : name.kind = .identifier) :
    Accepts rootReference [colons, name] (.node .rootReference [.leaf colons, .leaf name]) next :=
  (accepts_take colons _).andThen ((accepts_expectOr isName).finish .pure)

theorem accepts_single {label : Label} {word : Token} :
    Accepts (return .node label [← take] : Rule Tree) [word] (.node label [.leaf word]) next :=
  (accepts_take word next).finish .pure

theorem primaryFrom_literal {token : Token} (isLiteral : token.kind.isLiteral) :
    primaryFrom rules token = (return .node .literal [← take]) := by
  unfold primaryFrom
  cases kind : token.kind <;> simp_all [Kind.isLiteral]

theorem accepts_primary {tokens : List Token} {token : Token} {tree : Tree} {rule : Rule Tree}
    (read : Accepts rule (token :: tokens) tree next)
    (chosen : primaryFrom rules token = rule := by simp only [primaryFrom, *]) :
    Accepts (primary rules) (token :: tokens) tree next := by
  subst chosen
  exact accepts_current read

theorem accepts_parenthesized {inner : Tree} (opens : opener.kind = .leftParen)
    (read : AcceptsRun (parentheses rules) [.leaf opener, inner, .leaf closer] next) :
    AcceptsTree (primary rules) (.node .parenthesized [.leaf opener, inner, .leaf closer])
      next := by
  have chosen : primaryFrom rules opener =
      (return .node .parenthesized (← parentheses rules)) := by simp only [primaryFrom, opens]
  have whole := accepts_primary (read.finish .pure) chosen
  simpa [AcceptsTree] using whole

variable {operand : Tree}

theorem accepts_member {dot name : Token} (isDot : dot.kind = .dot)
    (isName : name.kind = .identifier) :
    Accepts (suffixStep rules operand) [dot, name]
      (some (.node .member [operand, .leaf dot, .leaf name])) next := by
  refine accepts_current ?_
  simp only [List.headD_cons, isDot]
  exact (accepts_take dot _).andThen
    (accepts_current ((accepts_expectOr isName).finish .pure))

theorem accepts_call {operand list : Tree} (opens : (nextOf [list] next).kind = .leftParen)
    (given : AcceptsTree (arguments rules) list next) :
    Accepts (suffixStep rules operand) (tokensOf [list]) (some (makeCall operand list)) next := by
  refine accepts_current ?_
  rw [nextOf] at opens
  simp only [opens]
  exact given.finish .pure

theorem accepts_index {operand key : Tree} (opens : opener.kind = .leftBracket)
    (sameLine : opener.startsLine = false) (between : AcceptsTree rules.expression key closer)
    (closes : closer.kind = .rightBracket) :
    Accepts (suffixStep rules operand) (opener :: (tokensOf [key] ++ [closer]))
      (some (.node .index [operand, .leaf opener, key, .leaf closer])) next := by
  refine accepts_current ?_
  simp only [List.headD_cons, opens]
  refine accepts_else (by rw [sameLine]; decide) ?_
  exact (accepts_take opener _).andThen
    (between.bind ((accepts_expect closes).finish .pure))

variable {operator : Token}

theorem accepts_postUpdate (isUpdate : operator.kind = .increment ∨ operator.kind = .decrement)
    (sameLine : operator.startsLine = false) :
    Accepts (suffixStep rules operand) [operator]
      (some (.node .postUpdate [operand, .leaf operator])) next := by
  refine accepts_current ?_
  rcases isUpdate with isIncrement | isDecrement
  · simp only [List.headD_cons, isIncrement]
    exact accepts_else (by rw [sameLine]; decide)
      ((accepts_take operator _).finish .pure)
  · simp only [List.headD_cons, isDecrement]
    exact accepts_else (by rw [sameLine]; decide)
      ((accepts_take operator _).finish .pure)

theorem accepts_noSuffix (ends : extendsOperand next = false) :
    Accepts (suffixStep rules operand) [] none next := by
  refine accepts_current ?_
  rw [List.headD_nil]
  split
  · next isDot => simp [extendsOperand, isDot] at ends
  · next opens => simp [extendsOperand, opens] at ends
  · next opens => exact accepts_then (by simpa [extendsOperand, opens] using ends) .pure
  · next same => exact accepts_then (by simpa [extendsOperand, same] using ends) .pure
  · next same => exact accepts_then (by simpa [extendsOperand, same] using ends) .pure
  · exact .pure

theorem accepts_unaryOperator (isOperator : operator.kind.isUnary)
    (applied : AcceptsTree rules.unary operand next) :
    Accepts (unary rules) (operator :: tokensOf [operand])
      (.node .unary [.leaf operator, operand]) next :=
  accepts_current (accepts_then isOperator
    ((accepts_take operator _).andThen (applied.finish .pure)))

theorem accepts_unaryOperand {tree : Tree} (plain : (nextOf [tree] next).kind.isUnary = false)
    (operand : AcceptsTree (suffixed rules) tree next) : AcceptsTree (unary rules) tree next :=
  accepts_current (accepts_else (by rw [← nextOf, plain]; decide) operand)

theorem accepts_infixOperator {least precedence : Nat} {left right : Tree}
    (binds : operator.kind.precedence? = some precedence) (tight : least ≤ precedence)
    (applied : AcceptsTree (rules.binary (precedence + 1)) right next) :
    Accepts (binaryStep rules least left) (operator :: tokensOf [right])
      (some (.node (operatorLabel operator.kind) [left, .leaf operator, right])) next := by
  refine accepts_current ?_
  simp only [List.headD_cons, binds]
  exact accepts_else (by omega)
    ((accepts_take operator _).andThen (applied.finish .pure))

theorem accepts_noInfix {least : Nat} {left : Tree} (ends : extendsInfix least next = false) :
    Accepts (binaryStep rules least left) [] none next := by
  refine accepts_current ?_
  rw [List.headD_nil]
  unfold extendsInfix at ends
  cases binds : next.kind.precedence? with
  | none => exact .pure
  | some precedence =>
    simp only [binds, Option.any_some, decide_eq_false_iff_not] at ends
    exact accepts_then (by omega) .pure

theorem accepts_noChoice {tree : Tree} (condition : AcceptsTree (binary rules 1) tree next)
    (ends : next.kind ≠ .question) : AcceptsTree (ternary rules) tree next :=
  condition.finish ((accepts_none ends).finish .pure)

theorem accepts_choice {condition first second : Tree} {question colon : Token}
    (tested : AcceptsTree (binary rules 1) condition question)
    (asks : question.kind = .question) (either : AcceptsTree rules.expression first colon)
    (parts : colon.kind = .colon) (other : AcceptsTree rules.expression second next) :
    Accepts (ternary rules)
      (tokensOf [condition] ++ question :: (tokensOf [first] ++ colon :: tokensOf [second]))
      (.node .ternary [condition, .leaf question, first, .leaf colon, second]) next :=
  tested.bind ((accepts_some asks).andThen (either.bind ((accepts_expect parts).andThen
    (other.finish .pure))))

theorem accepts_noAssignment {tree : Tree} (value : AcceptsTree (ternary rules) tree next)
    (ends : next.kind.isAssignment = false) : AcceptsTree (expression rules) tree next :=
  value.finish (accepts_current (accepts_else (by rw [List.headD_nil, ends]; decide)
    .pure))

theorem accepts_assignment {target value : Tree}
    (assigned : AcceptsTree (ternary rules) target operator)
    (isOperator : operator.kind.isAssignment) (given : AcceptsTree rules.expression value next) :
    Accepts (expression rules) (tokensOf [target] ++ operator :: tokensOf [value])
      (.node (assignmentLabel operator.kind) [target, .leaf operator, value]) next :=
  assigned.bind (accepts_current (accepts_then isOperator
    ((accepts_take operator _).andThen (given.finish .pure))))

end Expressions

section Statements

variable {rules : Rules} {next : Token}

theorem accepts_semicolon {semicolon : Token} (isSemicolon : semicolon.kind = .semicolon) :
    Accepts endStatement [semicolon] [.leaf semicolon] next :=
  (accepts_some isSemicolon).finish .pure

theorem accepts_noSemicolon (missing : next.kind ≠ .semicolon) (ends : endsStatement next) :
    Accepts endStatement [] [] next := by
  refine (accepts_none missing).finish (accepts_seesAny rfl (accepts_onNewLine ?_))
  exact accepts_then ends .pure

theorem repeats_noStatement {closers : List Kind}
    (ends : next.kind = .endOfInput ∨ closers.contains next.kind) :
    Repeats (statementRound rules closers) [] next := by
  refine repeats_nil ?_
  by_cases ended : next.kind = .endOfInput
  · exact accepts_sees ended (accepts_seesAny rfl .pure)
  · have closed := ends.resolve_left ended
    exact accepts_misses ended (accepts_seesAny closed .pure)

variable {tree : Tree} {trees : List Tree}

theorem repeats_statement {closers : List Kind}
    (goesOn : (nextOf (tree :: trees) next).kind ≠ .endOfInput)
    (isOpen : closers.contains (nextOf (tree :: trees) next).kind = false)
    (present : tokensOf [tree] ≠ [])
    (first : AcceptsTree (recovering rules.statement skipFailedStatement) tree (nextOf trees next))
    (others : Repeats (statementRound rules closers) trees next) :
    Repeats (statementRound rules closers) (tree :: trees) next := by
  have starts : nextOf (tree :: trees) next = (tokensOf [tree]).headD (nextOf trees next) := by
    simp [nextOf]
  rw [starts] at goesOn isOpen
  have once : Accepts (statementRound rules closers) (tokensOf [tree]) (some [tree])
      (nextOf trees next) :=
    accepts_misses goesOn (accepts_seesAny isOpen (first.finish .pure))
  exact repeats_append once present others

theorem accepts_block {body : List Tree} (opens : opener.kind = .leftBrace)
    (between : Repeats (statementRound rules [.rightBrace]) body closer)
    (closes : closer.kind = .rightBrace) :
    Accepts (block rules) (opener :: (tokensOf body ++ [closer]))
      (.node .block (.leaf opener :: body ++ [.leaf closer])) next :=
  (accepts_expect opens).andThen
    (between.many.bind ((accepts_expect closes).finish .pure))

variable {body : Tree} {condition : List Tree}

theorem accepts_ifStatement (isWord : keyword.kind = .kwIf)
    (tested : AcceptsRun (parentheses rules) condition (nextOf [body] next))
    (governed : AcceptsTree rules.statement body next) (ends : next.kind ≠ .kwElse) :
    Accepts (ifStatement rules) (keyword :: (tokensOf condition ++ tokensOf [body]))
      (.node .ifStatement (.leaf keyword :: condition ++ [body])) next :=
  (accepts_expect isWord).andThen (tested.bind (governed.finish
    ((accepts_none ends).finish .pure)))

theorem accepts_ifElseStatement {first second : Tree} {keyword otherwise : Token}
    (isWord : keyword.kind = .kwIf)
    (tested : AcceptsRun (parentheses rules) condition (nextOf [first] otherwise))
    (governed : AcceptsTree rules.statement first otherwise) (isElse : otherwise.kind = .kwElse)
    (alternative : AcceptsTree rules.statement second next) :
    Accepts (ifStatement rules)
      (keyword :: (tokensOf condition ++ (tokensOf [first] ++ otherwise :: tokensOf [second])))
      (.node .ifStatement (.leaf keyword :: condition ++ [first, .leaf otherwise, second]))
      next := by
  refine (accepts_expect isWord).andThen (tested.bind (governed.bind
    ((accepts_some isElse).andThen (alternative.finish ?_))) ?_)
  · simp only [List.append_assoc, List.cons_append]
    exact .pure
  · exact headD_append _ _ _

theorem accepts_whileStatement (isWord : keyword.kind = .kwWhile)
    (tested : AcceptsRun (parentheses rules) condition (nextOf [body] next))
    (governed : AcceptsTree rules.statement body next) :
    Accepts (whileStatement rules) (keyword :: (tokensOf condition ++ tokensOf [body]))
      (.node .whileStatement (.leaf keyword :: condition ++ [body])) next :=
  (accepts_expect isWord).andThen (tested.bind (governed.finish .pure))

theorem accepts_doWhileStatement {condition ending : List Tree} {keyword whileWord : Token}
    (isWord : keyword.kind = .kwDo) (governed : AcceptsTree rules.statement body whileWord)
    (isWhile : whileWord.kind = .kwWhile)
    (tested : AcceptsRun (parentheses rules) condition (nextOf ending next))
    (ends : AcceptsRun endStatement ending next) :
    Accepts (doWhileStatement rules)
      (keyword :: (tokensOf [body] ++ whileWord :: (tokensOf condition ++ tokensOf ending)))
      (.node .doWhileStatement ([.leaf keyword, body, .leaf whileWord] ++ condition ++ ending))
      next :=
  (accepts_expect isWord).andThen (governed.bind ((accepts_expect isWhile).andThen
    (tested.bind (ends.finish .pure))))

theorem accepts_declarator (isName : name.kind = .identifier) (ends : next.kind ≠ .assign) :
    Accepts (declarator rules) [name] (.node .declarator [.leaf name]) next :=
  accepts_current ((accepts_expectOr isName).andThen
    ((accepts_none ends).finish .pure))

variable {value : Tree}

theorem accepts_declaratorValue {name assign : Token} (isName : name.kind = .identifier)
    (isAssign : assign.kind = .assign) (given : AcceptsTree rules.expression value next) :
    Accepts (declarator rules) (name :: assign :: tokensOf [value])
      (.node .declarator [.leaf name, .leaf assign, value]) next :=
  accepts_current ((accepts_expectOr isName).andThen
    ((accepts_some isAssign).andThen (given.finish .pure)))

theorem accepts_localVariables {declarators : List Tree} (isWord : keyword.kind = .kwLocal)
    (declared : Lists (declarator rules) declarators next) :
    Accepts (localVariables rules) (keyword :: tokensOf declarators)
      (.leaf keyword :: declarators) next :=
  (accepts_expect isWord).andThen (declared.accepts.finish .pure)

theorem accepts_localDeclaration {declarators ending : List Tree} (isWord : keyword.kind = .kwLocal)
    (declared : Lists (declarator rules) declarators (nextOf ending next))
    (ends : AcceptsRun endStatement ending next) :
    Accepts (localDeclaration rules) (keyword :: (tokensOf declarators ++ tokensOf ending))
      (.node .localDeclaration (.leaf keyword :: declarators ++ ending)) next :=
  (accepts_localVariables isWord declared).bind (ends.finish .pure)

variable {ending : List Tree}

theorem accepts_constDeclaration {keyword name assign : Token} (isWord : keyword.kind = .kwConst)
    (isName : name.kind = .identifier) (isAssign : assign.kind = .assign)
    (given : AcceptsTree rules.expression value (nextOf ending next))
    (ends : AcceptsRun endStatement ending next) :
    Accepts (constDeclaration rules)
      (keyword :: name :: assign :: (tokensOf [value] ++ tokensOf ending))
      (.node .constDeclaration ([.leaf keyword, .leaf name, .leaf assign, value] ++ ending))
      next :=
  (accepts_expect isWord).andThen ((accepts_expectOr isName).andThen
    ((accepts_expect isAssign).andThen (given.bind (ends.finish .pure))))

theorem accepts_forLocal {declarators : List Tree} (isWord : keyword.kind = .kwLocal)
    (declared : Lists (declarator rules) declarators next) :
    Accepts (forInit rules) (keyword :: tokensOf declarators)
      [.node .localDeclaration (.leaf keyword :: declarators)] next :=
  accepts_sees isWord ((accepts_localVariables isWord declared).finish .pure)

theorem accepts_forNothing (ends : next.kind = .semicolon) :
    Accepts (forInit rules) [] [] next := by
  have noLocal : next.kind ≠ .kwLocal := by rw [ends]; decide
  exact accepts_misses noLocal (accepts_sees ends .pure)

theorem accepts_forExpression (noLocal : (nextOf [tree] next).kind ≠ .kwLocal)
    (present : (nextOf [tree] next).kind ≠ .semicolon)
    (value : AcceptsTree rules.expression tree next) :
    Accepts (forInit rules) (tokensOf [tree]) [tree] next :=
  accepts_misses noLocal (accepts_misses present (value.finish .pure))

theorem accepts_noExpression {closer : Kind} (ends : next.kind = closer) :
    Accepts (optionalExpression rules closer) [] [] next :=
  accepts_sees ends .pure

theorem accepts_someExpression {closer : Kind} (present : (nextOf [tree] next).kind ≠ closer)
    (value : AcceptsTree rules.expression tree next) :
    Accepts (optionalExpression rules closer) (tokensOf [tree]) [tree] next :=
  accepts_misses present (value.finish .pure)

theorem accepts_forStatement {init condition step : List Tree}
    {keyword opener firstMark secondMark closer : Token} (isWord : keyword.kind = .kwFor)
    (opens : opener.kind = .leftParen) (starts : AcceptsRun (forInit rules) init firstMark)
    (firstIs : firstMark.kind = .semicolon)
    (tested : AcceptsRun (optionalExpression rules .semicolon) condition secondMark)
    (secondIs : secondMark.kind = .semicolon)
    (stepped : AcceptsRun (optionalExpression rules .rightParen) step closer)
    (closes : closer.kind = .rightParen) (governed : AcceptsTree rules.statement body next) :
    Accepts (forStatement rules)
      (keyword :: opener :: (tokensOf init ++ firstMark :: (tokensOf condition ++
        secondMark :: (tokensOf step ++ closer :: tokensOf [body]))))
      (.node .forStatement [.leaf keyword, .leaf opener, .node .forInit init, .leaf firstMark,
        .node .forCondition condition, .leaf secondMark, .node .forStep step, .leaf closer,
        body]) next :=
  (accepts_expect isWord).andThen ((accepts_expect opens).andThen (starts.bind
    ((accepts_expect firstIs).andThen (tested.bind ((accepts_expect secondIs).andThen
      (stepped.bind ((accepts_expect closes).andThen
        (governed.finish .pure))))))))

theorem accepts_foreachVariables {names : List Tree} (named : LoopNames names)
    (ends : next.kind ≠ .comma) :
    Accepts foreachVariables (tokensOf names) (.node .foreachVariables names) next := by
  rcases named with ⟨name, isName, rfl⟩ | ⟨key, comma, value, isKey, isComma, isValue, rfl⟩
  · exact (accepts_expectOr isName).andThen ((accepts_none ends).finish .pure)
  · exact (accepts_expectOr isKey).andThen ((accepts_some isComma).andThen
      ((accepts_expectOr isValue).finish .pure))

theorem accepts_foreachStatement {names : List Tree} {container body : Tree}
    {keyword opener inWord closer : Token} (isWord : keyword.kind = .kwForeach)
    (opens : opener.kind = .leftParen) (named : LoopNames names) (isIn : inWord.kind = .kwIn)
    (iterated : AcceptsTree rules.expression container closer)
    (closes : closer.kind = .rightParen) (governed : AcceptsTree rules.statement body next) :
    Accepts (foreachStatement rules)
      (keyword :: opener :: (tokensOf names ++ inWord :: (tokensOf [container] ++
        closer :: tokensOf [body])))
      (.node .foreachStatement [.leaf keyword, .leaf opener, .node .foreachVariables names,
        .leaf inWord, container, .leaf closer, body]) next := by
  have noComma : inWord.kind ≠ .comma := by rw [isIn]; decide
  exact (accepts_expect isWord).andThen ((accepts_expect opens).andThen
    ((accepts_foreachVariables named noComma).bind ((accepts_expect isIn).andThen
      (iterated.bind ((accepts_expect closes).andThen (governed.finish .pure))))))

theorem accepts_caseBody
    (inside : Repeats (statementRound rules [.kwCase, .kwDefault, .rightBrace]) trees next) :
    Accepts (caseBody rules) (tokensOf trees) (.node .caseBody trees) next :=
  inside.many.finish .pure

theorem accepts_caseClause {value body : Tree} {keyword colon : Token}
    (isWord : keyword.kind = .kwCase) (compared : AcceptsTree rules.expression value colon)
    (isColon : colon.kind = .colon) (inside : AcceptsTree (caseBody rules) body next) :
    Accepts (switchClause rules) (keyword :: (tokensOf [value] ++ colon :: tokensOf [body]))
      (.node .caseClause [.leaf keyword, value, .leaf colon, body]) next :=
  accepts_sees isWord ((accepts_take keyword _).andThen (compared.bind
    ((accepts_expect isColon).andThen (inside.finish .pure))))

theorem accepts_defaultClause {keyword colon : Token} (isWord : keyword.kind = .kwDefault)
    (isColon : colon.kind = .colon) (inside : AcceptsTree (caseBody rules) body next) :
    Accepts (switchClause rules) (keyword :: colon :: tokensOf [body])
      (.node .defaultClause [.leaf keyword, .leaf colon, body]) next := by
  have noCase : keyword.kind ≠ .kwCase := by rw [isWord]; decide
  exact accepts_misses noCase (accepts_sees isWord ((accepts_take keyword _).andThen
    ((accepts_expect isColon).andThen (inside.finish .pure))))

theorem repeats_noClause (ends : [Kind.rightBrace, .endOfInput].contains next.kind) :
    Repeats (clauseRound rules) [] next :=
  repeats_nil (accepts_seesAny ends .pure)

theorem repeats_clause
    (goesOn : [Kind.rightBrace, .endOfInput].contains (nextOf (tree :: trees) next).kind = false)
    (present : tokensOf [tree] ≠ [])
    (first : AcceptsTree (switchClause rules) tree (nextOf trees next))
    (others : Repeats (clauseRound rules) trees next) :
    Repeats (clauseRound rules) (tree :: trees) next := by
  have starts : nextOf (tree :: trees) next = (tokensOf [tree]).headD (nextOf trees next) := by
    simp [nextOf]
  rw [starts] at goesOn
  have once : Accepts (clauseRound rules) (tokensOf [tree]) (some [tree]) (nextOf trees next) :=
    accepts_seesAny goesOn (first.finish .pure)
  exact repeats_append once present others

theorem accepts_switchStatement {subject clauses : List Tree} {keyword opener closer : Token}
    (isWord : keyword.kind = .kwSwitch) (tested : AcceptsRun (parentheses rules) subject opener)
    (opens : opener.kind = .leftBrace) (between : Repeats (clauseRound rules) clauses closer)
    (closes : closer.kind = .rightBrace) :
    Accepts (switchStatement rules)
      (keyword :: (tokensOf subject ++ opener :: (tokensOf clauses ++ [closer])))
      (.node .switchStatement (.leaf keyword :: subject ++ [.leaf opener] ++ clauses ++
        [.leaf closer])) next :=
  (accepts_expect isWord).andThen (tested.bind ((accepts_expect opens).andThen
    (between.many.bind ((accepts_expect closes).finish .pure))))

theorem accepts_tryStatement {body handler : Tree} {keyword catchWord opener name closer : Token}
    (isWord : keyword.kind = .kwTry) (governed : AcceptsTree rules.statement body catchWord)
    (isCatch : catchWord.kind = .kwCatch) (opens : opener.kind = .leftParen)
    (isName : name.kind = .identifier) (closes : closer.kind = .rightParen)
    (handled : AcceptsTree rules.statement handler next) :
    Accepts (tryStatement rules)
      (keyword :: (tokensOf [body] ++ catchWord :: opener :: name :: closer ::
        tokensOf [handler]))
      (.node .tryStatement [.leaf keyword, body, .leaf catchWord, .leaf opener, .leaf name,
        .leaf closer, handler]) next :=
  (accepts_expect isWord).andThen (governed.bind ((accepts_expect isCatch).andThen
    ((accepts_expect opens).andThen ((accepts_expectOr isName).andThen
      ((accepts_expect closes).andThen (handled.finish .pure))))))

theorem repeats_pathEnd (ends : [Kind.doubleColon, .dot].contains next.kind = false) :
    Repeats pathRound [] next :=
  repeats_nil (accepts_seesAny ends .pure)

theorem repeats_pathStep {separator name : Token}
    (separates : [Kind.doubleColon, .dot].contains separator.kind)
    (isName : name.kind = .identifier) (others : Repeats pathRound trees next) :
    Repeats pathRound (.leaf separator :: .leaf name :: trees) next := by
  have once : Accepts pathRound [separator, name] (some [.leaf separator, .leaf name])
      (nextOf trees next) :=
    accepts_seesAny separates ((accepts_take separator _).andThen
      ((accepts_expectOr isName).finish .pure))
  exact @repeats_append _ [.leaf separator, .leaf name] trees next once (by simp) others

theorem accepts_plainName {path : List Tree} (isName : name.kind = .identifier)
    (goesOn : Repeats pathRound path next) :
    Accepts functionName (name :: tokensOf path) (.node .functionName (.leaf name :: path))
      next := by
  have noColons : name.kind ≠ .doubleColon := by rw [isName]; decide
  exact (accepts_missing noColons).bind ((accepts_expectOr isName).andThen
    (goesOn.many.finish .pure))

theorem accepts_rootedName {path : List Tree} {colons name : Token}
    (areColons : colons.kind = .doubleColon) (isName : name.kind = .identifier)
    (goesOn : Repeats pathRound path next) :
    Accepts functionName (colons :: name :: tokensOf path)
      (.node .functionName (.leaf colons :: .leaf name :: path)) next :=
  (accepts_optional areColons).andThen ((accepts_expectOr isName).andThen
    (goesOn.many.finish .pure))

theorem accepts_functionEnd {ending : List Token} {following : List Tree → Rule Tree}
    (ends : (ending = [] ∧ closesFunction next = false) ∨
      ∃ semicolon : Token, closesFunction semicolon ∧ ending = [semicolon])
    (after : Accepts (following (ending.map .leaf)) [] tree next) :
    Accepts (do
      let ending ← if (← sees .semicolon) && !(← onNewLine) then pure [← take] else pure []
      following ending) ending tree next := by
  rcases ends with ⟨rfl, stays⟩ | ⟨semicolon, closes, rfl⟩
  · by_cases isSemicolon : next.kind = .semicolon
    · have fresh : next.startsLine := by simpa [closesFunction, isSemicolon] using stays
      refine accepts_sees isSemicolon (accepts_onNewLine ?_)
      exact accepts_else (by simp [fresh]) after
    · exact accepts_misses isSemicolon (accepts_onNewLine after)
  · have both : semicolon.kind = .semicolon ∧ semicolon.startsLine = false := by
      simpa [closesFunction] using closes
    refine accepts_sees both.1 (accepts_onNewLine ?_)
    exact accepts_then (by simp [both.2]) ((accepts_take semicolon _).finish after)

theorem accepts_functionDeclaration {name list body : Tree} {scope ending : List Token}
    (placed : scope = [] ∨ ∃ word : Token, word.kind = .kwLocal ∧ scope = [word])
    (isWord : keyword.kind = .kwFunction)
    (named : AcceptsTree functionName name (nextOf [list] (nextOf [body] (ending.headD next))))
    (head : AcceptsTree (parameters rules) list (nextOf [body] (ending.headD next)))
    (inside : AcceptsTree (block rules) body (ending.headD next))
    (ends : (ending = [] ∧ closesFunction next = false) ∨
      ∃ semicolon : Token, closesFunction semicolon ∧ ending = [semicolon]) :
    Accepts (functionDeclaration rules)
      (scope ++ keyword :: (tokensOf [name] ++ (tokensOf [list] ++ (tokensOf [body] ++ ending))))
      (.node .functionDeclaration (scope.map .leaf ++ [.leaf keyword, name, list, body] ++
        ending.map .leaf)) next := by
  have start : Accepts (optional .kwLocal) scope (scope.map .leaf) keyword := by
    rcases placed with rfl | ⟨word, isLocal, rfl⟩
    · exact accepts_missing (by rw [isWord]; decide)
    · exact accepts_optional isLocal
  refine start.bind ((accepts_expect isWord).andThen (named.bind (head.bind (inside.bind
    (accepts_functionEnd ends .pure)) ?_) ?_))
  · exact headD_append _ _ _
  · simp [nextOf]

theorem accepts_returnNothing {ending : List Tree} {keyword : Token}
    (isWord : keyword.kind = .kwReturn) (nothing : endsReturn (nextOf ending next))
    (ends : AcceptsRun endStatement ending next) :
    Accepts (returnStatement rules) (keyword :: tokensOf ending)
      (.node .returnStatement (.leaf keyword :: ending)) next := by
  refine (accepts_expect isWord).andThen (accepts_seesAny rfl (accepts_onNewLine ?_))
  exact accepts_then nothing (ends.finish .pure)

theorem accepts_returnValue (isWord : keyword.kind = .kwReturn)
    (present : endsReturn (nextOf [value] (nextOf ending next)) = false)
    (given : AcceptsTree rules.expression value (nextOf ending next))
    (ends : AcceptsRun endStatement ending next) :
    Accepts (returnStatement rules) (keyword :: (tokensOf [value] ++ tokensOf ending))
      (.node .returnStatement (.leaf keyword :: value :: ending)) next := by
  refine (accepts_expect isWord).andThen (accepts_seesAny rfl (accepts_onNewLine ?_))
  rw [headD_append]
  refine accepts_else ?_ (given.bind (ends.finish .pure))
  simpa [endsReturn, nextOf] using present

theorem accepts_jump {label : Label} (ends : AcceptsRun endStatement ending next) :
    Accepts (jumpStatement label) (keyword :: tokensOf ending)
      (.node label (.leaf keyword :: ending)) next :=
  (accepts_take keyword _).andThen (ends.finish .pure)

theorem accepts_throwStatement (thrown : AcceptsTree rules.expression value (nextOf ending next))
    (ends : AcceptsRun endStatement ending next) :
    Accepts (throwStatement rules) (keyword :: (tokensOf [value] ++ tokensOf ending))
      (.node .throwStatement (.leaf keyword :: value :: ending)) next :=
  (accepts_take keyword _).andThen (thrown.bind (ends.finish .pure))

theorem accepts_expressionStatement
    (evaluated : AcceptsTree rules.expression value (nextOf ending next))
    (ends : AcceptsRun endStatement ending next) :
    Accepts (expressionStatement rules) (tokensOf [value] ++ tokensOf ending)
      (.node .expressionStatement (value :: ending)) next :=
  evaluated.bind (ends.finish .pure)

theorem statementFrom_expression {first : Kind} {following : Option Kind}
    (plain : leadsStatement first = false)
    (unnamed : first = .kwFunction → following = some .leftParen) :
    statementFrom rules first following = expressionStatement rules := by
  unfold statementFrom
  split <;> simp_all [leadsStatement]

theorem accepts_statement {tokens : List Token} {token : Token} {rule : Rule Tree}
    (read : Accepts rule (token :: tokens) tree next)
    (chosen : statementFrom rules token.kind (some (tokens.headD next).kind) = rule := by
      simp only [statementFrom, *]) :
    Accepts (statement rules) (token :: tokens) tree next := by
  subst chosen
  exact accepts_next (accepts_current read)

end Statements

end Squirrel.Grammar
