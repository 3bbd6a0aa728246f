import Squirrel.Proofs.Grammar.Contract

/-! What the rules read is derived by the grammar. -/

namespace Squirrel.Grammar

open Squirrel.Tree (tokensOf nextOf errorSitesOf)

/-- Rules that read what is one level of nesting deeper. -/
structure Sound (rules : Rules) (levels : Nat) : Prop where
  own : rules = Grammar.rules levels
  statement : ReadsOne rules.statement levels (.deeper .statement)
  expression : ReadsOne rules.expression levels (.deeper .expression)
  ternary : ReadsOne rules.ternary levels (.deeper .ternary)
  binary : ∀ least, ReadsOne (rules.binary least) levels (.deeper (.binary least))
  unary : ReadsOne rules.unary levels (.deeper .unary)

/-- The tree of a category that was read so far, which starts at `start`. -/
def ReadSince (category : Category) (levels : Nat) (start : State) (tree : Tree) (state : State) :
    Prop :=
  Consumes start [tree] state ∧ Derives levels category [tree] state.current

section Expressions

variable {rules : Rules} {levels : Nat} (sound : Sound rules levels)

include sound

theorem reads_parentheses : ReadsRun (parentheses rules) levels .parentheses := by
  intro start closed
  unfold parentheses
  refine yields_expect closed (by decide) fun opened opens => ?_
  refine sound.expression.bind opened.closed fun inner mid read between => ?_
  refine yields_expect read.closed (by decide) fun ended closes => ?_
  exact .pure ⟨opened.trans (read.trans ended), .parentheses opens between closes⟩

omit sound in
theorem round_comma {item : Rule Tree} {category : Category} (reads : ReadsOne item levels category)
    (state : State) (closed : Closed state.rest) :
    Yields state (ManyRound (fun trees next => ∀ first,
      Derives levels category [first] (nextOf trees next) →
        Derives levels (.separated category) (first :: trees) next) state)
      (commaRound item state) := by
  refine yields_accept closed (by decide) (fun taken isComma => ?_) fun noComma => ?_
  · refine reads.bind taken.closed fun tree stop read derived => ?_
    refine .pure ⟨taken.trans read, by simp, fun trees final rest met first before => ?_⟩
    rw [rest.current] at derived
    exact .moreSeparated (by simpa using before) isComma (met tree derived)
  · refine .pure ⟨rfl, fun first before => ?_⟩
    exact .lastSeparated (by simpa using before) noComma

omit sound in
theorem reads_commaSeparated {item : Rule Tree} {category : Category}
    (reads : ReadsOne item levels category) :
    ReadsRun (commaSeparated item) levels (.separated category) := by
  intro start closed
  unfold commaSeparated
  refine reads.bind closed fun first mid read derived => ?_
  refine (reads_many (round_comma reads)).bind read.closed fun trees stop rest met => ?_
  rw [rest.current] at derived
  exact .pure ⟨read.trans rest, met first derived⟩

theorem reads_arguments : ReadsOne (arguments rules) levels .arguments := by
  intro start closed
  unfold arguments
  refine yields_expect closed (by decide) fun opened opens => ?_
  refine yields_sees (fun empty => ?_) fun present => ?_
  · refine yields_expect opened.closed (by decide) fun ended closes => ?_
    exact .pure ⟨(opened.trans ended).node (by decide), .noArguments opens closes⟩
  · refine (reads_commaSeparated sound.expression).bind opened.closed
      fun values mid read between => ?_
    rw [read.current] at present
    refine yields_expect read.closed (by decide) fun ended closes => ?_
    exact .pure ⟨(opened.trans (read.trans ended)).node (by decide),
      .arguments opens present between closes⟩

theorem reads_parameter : ReadsOne (parameter rules) levels .parameter := by
  intro start closed
  unfold parameter
  refine yields_sees (fun areDots => ?_) fun _ => ?_
  · refine yields_take closed (by rw [areDots]; decide) fun taken => ?_
    exact .pure ⟨taken.node (by decide), .variadic areDots⟩
  · refine yields_current ?_
    refine yields_expectOr closed (by decide) fun named isName => ?_
    refine yields_accept named.closed (by decide) (fun taken isAssign => ?_) fun noAssign => ?_
    · refine sound.ternary.bind taken.closed fun value stop read given => ?_
      exact .pure ⟨(named.trans (taken.trans read)).node (by decide),
        .parameterDefault isName isAssign given⟩
    · exact .pure ⟨named.node (by decide), .parameter isName noAssign⟩

omit sound in
/-- The parameters read so far: a list that is open goes on with any other list, and one that is not
is complete. -/
def Enumerates (levels : Nat) (start : State) (read : List Tree × Bool) (state : State) : Prop :=
  Consumes start read.1 state ∧ match read.2 with
    | true => ∀ others final, Consumes state others final →
        Derives levels .parameterList others final.current →
        Derives levels .parameterList (read.1 ++ others) final.current
    | false => Derives levels .parameterList read.1 state.current

theorem yields_parameterRound (start : State) (read : List Tree × Bool) (state : State)
    (closed : Closed state.rest) :
    Yields state (Round (Enumerates levels start) (fun read state => Consumes start read.1 state ∧
      Derives levels .parameterList read.1 state.current) read state)
      (parameterRound rules read state) := by
  obtain ⟨read, isOpen⟩ := read
  cases isOpen with
  | false => exact .pure ⟨turn_none closed, id⟩
  | true =>
    refine yields_sees (fun closes => ?_) fun _ => ?_
    · refine .pure ⟨turn_none closed, fun ⟨sofar, met⟩ => ?_⟩
      have whole := met [] state (.refl closed) (.noParameter closes)
      rw [List.append_nil] at whole
      exact ⟨sofar, whole⟩
    · refine (reads_parameter sound).bind closed fun one mid taken derived => ?_
      refine yields_accept taken.closed (by decide) (fun comma isComma => ?_) fun noComma => ?_
      · have both := taken.trans comma
        refine .pure ⟨both.turn (by simp) _, fun ⟨sofar, met⟩ => ⟨sofar.trans both, ?_⟩⟩
        intro others final rest later
        rw [List.append_assoc]
        exact met _ final (both.trans rest) (.moreParameters derived isComma later)
      · exact .pure ⟨taken.turn (derived.full rfl) _, fun ⟨sofar, met⟩ =>
          ⟨sofar.trans taken, met [one] mid taken (.lastParameter derived noComma)⟩⟩

theorem reads_parameterList : ReadsRun (parameterList rules) levels .parameterList := by
  intro start closed
  have begun : Enumerates levels start ([], true) start := ⟨.refl closed, fun _ _ _ met => met⟩
  exact (yields_iterate (yields_parameterRound sound start) closed begun).bind fun _ _ met => met

theorem reads_parameters : ReadsOne (parameters rules) levels .parameters := by
  intro start closed
  unfold parameters
  refine yields_expect closed (by decide) fun opened opens => ?_
  refine (reads_parameterList sound).bind opened.closed fun list mid read between => ?_
  refine yields_expect read.closed (by decide) fun ended closes => ?_
  exact .pure ⟨(opened.trans (read.trans ended)).node (by decide),
    .parameters opens between closes⟩

theorem round_statement (closers : List Kind) (state : State) (closed : Closed state.rest) :
    Yields state (ManyRound (Derives levels (.statements closers)) state)
      (statementRound rules closers state) := by
  refine yields_sees (fun ended => ?_) fun goesOn => ?_
  · exact .pure ⟨rfl, .noStatement (.inl ended)⟩
  refine yields_seesAny (fun ended => ?_) fun isOpen => ?_
  · exact .pure ⟨rfl, .noStatement (.inr ended)⟩
  refine (yields_recovering sound.statement closed
    (fun fault stop failed => ⟨levels, state, .inl (sound.own ▸ failed)⟩)
    fun stop reached => resumes_skipFailedStatement closed goesOn reached).andThen
    fun tree stop read kept => ?_
  have derived : Derives levels .unit [tree] stop.current := by
    rcases kept with sound | ⟨tokens, present, rfl⟩
    · exact .unit sound
    · exact .skippedUnit present
  refine .pure ⟨read, derived.full rfl, fun others final rest met => ?_⟩
  have first := (read.trans rest).current
  rw [rest.current] at derived
  rw [first] at goesOn isOpen
  exact .statements goesOn isOpen derived met

theorem reads_statements (closers : List Kind) :
    ReadsRun (statements rules closers) levels (.statements closers) :=
  reads_many (round_statement sound closers)

theorem reads_block : ReadsOne (block rules) levels .block := by
  intro start closed
  unfold block
  refine yields_expect closed (by decide) fun opened opens => ?_
  refine (reads_statements sound _).bind opened.closed fun body mid read between => ?_
  refine yields_expect read.closed (by decide) fun ended closes => ?_
  exact .pure ⟨(opened.trans (read.trans ended)).node (by decide), .block opens between closes⟩

omit sound in
theorem lambdaLabel_ne_error (list body : Tree) : lambdaLabel list body ≠ .error := by
  unfold lambdaLabel
  split <;> decide

omit sound in
theorem lambdaLabel_block {list body : Tree} (isBlock : body.label? = some .block) :
    lambdaLabel list body = .lambdaLiteral := by
  simp [lambdaLabel, Tree.hasLabel, isBlock]

theorem reads_lambda : ReadsOne (lambda rules) levels .primary := by
  intro start closed
  unfold lambda
  refine yields_expect closed (by decide) fun signed isSign => ?_
  refine (reads_parameters sound).bind signed.closed fun list mid read head => ?_
  refine yields_sees (fun _ => ?_) fun noBlock => ?_
  · refine (reads_block sound).bind read.closed fun body stop rest inside => ?_
    have label := @lambdaLabel_block list body inside.block_label
    have consumed := (signed.trans (read.trans rest)).node (lambdaLabel_ne_error list body)
    rw [rest.current] at head
    refine .pure ⟨consumed, ?_⟩
    change Derives levels .primary [.node (lambdaLabel list body) _] _
    rw [label]
    exact .lambdaBlock isSign head inside
  · refine sound.expression.bind read.closed fun body stop rest inside => ?_
    have consumed := (signed.trans (read.trans rest)).node (lambdaLabel_ne_error list body)
    rw [rest.current] at head noBlock
    exact .pure ⟨consumed, .lambda isSign head noBlock inside⟩

omit sound in
theorem round_element {element : Rule Tree} {closers : List Kind}
    {one : Tree → Token → Prop} {run : List Tree → Token → Prop}
    (reads : ∀ state, Closed state.rest → closers.contains state.current.kind = false →
      Yields state (fun tree stop => Consumes state [tree] stop ∧ one tree stop.current)
        (element state))
    (full : ∀ tree next, one tree next → tokensOf [tree] ≠ [])
    (done : ∀ next, closers.contains next.kind → run [] next)
    (bare : ∀ tree trees next, closers.contains (nextOf (tree :: trees) next).kind = false →
      one tree (nextOf trees next) → (nextOf trees next).kind ≠ .comma → run trees next →
      run (tree :: trees) next)
    (followed : ∀ tree comma trees next,
      closers.contains (nextOf (tree :: .leaf comma :: trees) next).kind = false →
      one tree comma → comma.kind = .comma → run trees next →
      run (tree :: .leaf comma :: trees) next)
    (state : State) (closed : Closed state.rest) :
    Yields state (ManyRound run state) (elementRound element closers state) := by
  refine yields_seesAny (fun ends => .pure ⟨rfl, done _ ends⟩) fun goesOn => ?_
  refine (reads state closed goesOn).andThen fun tree mid read met => ?_
  have someTokens := full tree _ met
  refine yields_optional read.closed (by decide) (fun taken isComma => ?_) fun noComma => ?_
  · refine .pure ⟨read.trans taken, by simp, fun others final rest later => ?_⟩
    rw [((read.trans taken).trans rest).current] at goesOn
    exact followed tree mid.current others final.current goesOn met isComma later
  · refine .pure ⟨read, someTokens, fun others final rest later => ?_⟩
    rw [(read.trans rest).current] at goesOn
    rw [rest.current] at met noComma
    exact bare tree others final.current goesOn met noComma later

theorem round_item : ∀ state, Closed state.rest →
    Yields state (ManyRound (Derives levels .items) state)
      (elementRound rules.expression [.rightBracket, .endOfInput] state) :=
  round_element (fun state closed _ => sound.expression state closed)
    (fun _ _ derived => derived.full rfl) (fun _ => .noItem) (fun _ _ _ => .item)
    (fun _ _ _ _ => .itemComma)

theorem reads_array : ReadsOne (array rules) levels .primary := by
  intro start closed
  unfold array
  refine yields_expect closed (by decide) fun opened opens => ?_
  refine (reads_many (round_item sound)).bind opened.closed fun list mid read between => ?_
  refine yields_expect read.closed (by decide) fun ended closes => ?_
  exact .pure ⟨(opened.trans (read.trans ended)).node (by decide), .array opens between closes⟩

theorem yields_tableSlot {label : Label} {category : Category}
    {state : State} (closed : Closed state.rest) (key : state.current.kind ≠ .endOfInput)
    (sign : state.advance.current.kind ≠ .endOfInput) (proper : label ≠ .error)
    (slot : ∀ value next, Derives levels (.deeper .expression) [value] next →
      Derives levels category
        [.node label [.leaf state.current, .leaf state.advance.current, value]] next) :
    Yields state (ReadSince category levels state) (tableSlot rules label state) := by
  unfold tableSlot
  refine yields_take closed key fun taken => ?_
  refine yields_take taken.closed sign fun signed => ?_
  refine sound.expression.bind signed.closed fun value stop read given => ?_
  exact .pure ⟨(taken.trans (signed.trans read)).node proper, slot value _ given⟩

theorem yields_tableComputed {state : State} (closed : Closed state.rest)
    (opens : state.current.kind = .leftBracket) :
    Yields state (ReadSince .entry levels state) (tableComputed rules state) := by
  unfold tableComputed
  refine yields_take closed (by rw [opens]; decide) fun opened => ?_
  refine sound.expression.bind opened.closed fun key mid read named => ?_
  refine yields_expect read.closed (by decide) fun ended closes => ?_
  refine yields_expect ended.closed (by decide) fun signed isAssign => ?_
  refine sound.expression.bind signed.closed fun value stop rest given => ?_
  exact .pure ⟨(opened.trans (read.trans (ended.trans (signed.trans rest)))).node (by decide),
    .computedSlot opens named closes isAssign given⟩

theorem yields_tableMethod {state : State} (closed : Closed state.rest)
    (isWord : state.current.kind = .kwFunction) :
    Yields state (ReadSince .entry levels state) (tableMethod rules state) := by
  unfold tableMethod
  refine yields_take closed (by rw [isWord]; decide) fun taken => ?_
  refine yields_expectOr taken.closed (by decide) fun named isName => ?_
  refine (reads_parameters sound).bind named.closed fun list mid read head => ?_
  refine (reads_block sound).bind read.closed fun body stop rest inside => ?_
  rw [rest.current] at head
  exact .pure ⟨(taken.trans (named.trans (read.trans rest))).node (by decide),
    .method isWord isName head inside⟩

omit sound in
theorem lookahead_one {state : State} (closed : Closed state.rest)
    (goesOn : state.current.kind ≠ .endOfInput) :
    state.lookahead? 1 = some state.advance.current := by
  obtain ⟨shape, stillClosed⟩ := closed.advance goesOn
  obtain ⟨rest, shapeLater⟩ := stillClosed.shape
  unfold State.lookahead?
  rw [shape, shapeLater]
  rfl

theorem reads_tableEntry : ReadsOne (tableEntry rules) levels .entry := by
  intro state closed
  unfold tableEntry
  refine yields_current (yields_next ?_)
  dsimp only
  split
  · next both =>
    obtain ⟨isName, following⟩ := both
    have key : state.current.kind ≠ .endOfInput := by rw [isName]; decide
    rw [lookahead_one closed key] at following
    have isAssign : state.advance.current.kind = .assign := by simpa using following
    exact yields_tableSlot sound closed key (by rw [isAssign]; decide) (by decide)
      fun value next given => .slot isName isAssign given
  split
  · next opens => exact yields_tableComputed sound closed opens
  split
  · next both =>
    obtain ⟨isString, following⟩ := both
    have key : state.current.kind ≠ .endOfInput := by rw [isString]; decide
    rw [lookahead_one closed key] at following
    have isColon : state.advance.current.kind = .colon := by simpa using following
    exact yields_tableSlot sound closed key (by rw [isColon]; decide) (by decide)
      fun value next given => .quotedSlot isString isColon given
  split
  · next isWord => exact yields_tableMethod sound closed isWord
  · exact yields_fail closed

theorem round_entry : ∀ state, Closed state.rest →
    Yields state (ManyRound (Derives levels .entries) state)
      (elementRound (recovering (tableEntry rules) skipFailedEntry) [.rightBrace, .endOfInput]
        state) := by
  refine round_element (fun state closed goesOn => ?_) (fun _ _ derived => derived.full rfl)
    (fun _ => .noEntry) (fun _ _ _ => .oneEntry) (fun _ _ _ _ => .entryComma)
  have notEnd : state.current.kind ≠ .endOfInput := by
    intro ended
    simp [ended] at goesOn
  refine (yields_recovering (reads_tableEntry sound) closed
    (fun fault stop failed => ⟨levels, state, .inr (sound.own ▸ failed)⟩)
    fun stop reached => resumes_skipFailedEntry closed notEnd reached).mono ?_
  rintro tree stop ⟨read, derived | ⟨tokens, present, rfl⟩⟩
  · exact ⟨read, derived⟩
  · exact ⟨read, .skippedEntry present⟩

theorem reads_table : ReadsOne (table rules) levels .primary := by
  intro start closed
  unfold table
  refine yields_expect closed (by decide) fun opened opens => ?_
  refine (reads_many (round_entry sound)).bind opened.closed fun list mid read between => ?_
  refine yields_expect read.closed (by decide) fun ended closes => ?_
  exact .pure ⟨(opened.trans (read.trans ended)).node (by decide), .table opens between closes⟩

theorem yields_functionLiteral {state : State} (closed : Closed state.rest)
    (isWord : state.current.kind = .kwFunction) :
    Yields state (ReadSince .primary levels state) (functionLiteral rules state) := by
  unfold functionLiteral
  refine yields_take closed (by rw [isWord]; decide) fun taken => ?_
  refine (reads_parameters sound).bind taken.closed fun list mid read head => ?_
  refine (reads_block sound).bind read.closed fun body stop rest inside => ?_
  rw [rest.current] at head
  exact .pure ⟨(taken.trans (read.trans rest)).node (by decide),
    .functionLiteral isWord head inside⟩

omit sound in
theorem yields_rootReference {state : State} (closed : Closed state.rest)
    (areColons : state.current.kind = .doubleColon) :
    Yields state (ReadSince .primary levels state) (rootReference state) := by
  unfold rootReference
  refine yields_take closed (by rw [areColons]; decide) fun taken => ?_
  refine yields_expectOr taken.closed (by decide) fun named isName => ?_
  exact .pure ⟨(taken.trans named).node (by decide), .rootReference areColons isName⟩

omit sound in
theorem yields_single {state : State} {label : Label} {category : Category}
    (closed : Closed state.rest) (goesOn : state.current.kind ≠ .endOfInput)
    (proper : label ≠ .error)
    (derived : ∀ next, Derives levels category [.node label [.leaf state.current]] next) :
    Yields state (ReadSince category levels state)
      ((do return .node label [← take] : Rule Tree) state) := by
  refine yields_take closed goesOn fun taken => ?_
  exact .pure ⟨taken.node proper, derived _⟩

omit sound in
theorem consumes_malformed {state : State} (closed : Closed state.rest)
    (isError : state.current.kind = .error) :
    Consumes state [.node .error [.leaf state.current]] state.advance := by
  have taken := consumes_advance closed (by rw [isError]; decide)
  refine ⟨by simpa using taken.rest, taken.reaches, ?_, ?_⟩
  · intro diagnostic member
    exact .inl (by rwa [diagnostics_advance] at member)
  · simp [Tree.errorSites_node, isError]

theorem reads_primary : ReadsOne (primary rules) levels .primary := by
  intro state closed
  unfold primary
  refine yields_current ?_
  unfold primaryFrom
  change Yields state _ (EStateM.run _ state)
  split
  · next isName =>
    exact yields_single closed (by rw [isName]; decide) (by decide) fun _ => .reference isName
  · next isWord =>
    exact yields_single closed (by rw [isWord]; decide) (by decide) fun _ => .thisObject isWord
  · next isWord =>
    exact yields_single closed (by rw [isWord]; decide) (by decide) fun _ => .baseObject isWord
  · next areColons => exact yields_rootReference closed areColons
  · refine (reads_parentheses sound).bind closed fun trees stop read inside => ?_
    exact .pure ⟨read.node (by decide), .parenthesized inside⟩
  · exact reads_table sound state closed
  · exact reads_array sound state closed
  · next isWord => exact yields_functionLiteral sound closed isWord
  · exact reads_lambda sound state closed
  · next isError =>
    refine yields_take closed (by rw [isError]; decide) fun _ => ?_
    exact .pure ⟨consumes_malformed closed isError, .malformed isError⟩
  · split
    · next isLiteral =>
      refine yields_single closed ?_ (by decide) fun _ => .literal isLiteral
      intro ended
      rw [ended] at isLiteral
      exact absurd isLiteral (by decide)
    · exact yields_fail closed

omit sound in
theorem label_makeCall (callee list : Tree) :
    makeCall callee list = .node .inheritCall [callee, list] ∨
      makeCall callee list = .node .call [callee, list] := by
  unfold makeCall
  split
  · split
    · exact .inl rfl
    · exact .inr rfl
  · exact .inr rfl

omit sound in
theorem consumes_makeCall {start stop : State} {callee list : Tree}
    (read : Consumes start [callee, list] stop) : Consumes start [makeCall callee list] stop := by
  rcases label_makeCall callee list with shape | shape
  · rw [shape]
    exact read.node (by decide)
  · rw [shape]
    exact read.node (by decide)

omit sound in
theorem yields_postUpdate (start : State) {operand : Tree} {state : State}
    (closed : Closed state.rest)
    (isUpdate : state.current.kind = .increment ∨ state.current.kind = .decrement) :
    Yields state
      (Round (ReadSince .suffixes levels start) (ReadSince .operand levels start) operand state)
      ((if state.current.startsLine then return none
        else return some (.node .postUpdate [operand, ← take]) : Rule (Option Tree)) state) := by
  refine yields_ite (fun fresh => ?_) fun sameLine => ?_
  · refine .pure ⟨turn_none closed, fun ⟨sofar, chain⟩ => ⟨sofar, .operand chain ?_⟩⟩
    rcases isUpdate with same | same <;> simp [extendsOperand, same, fresh]
  · refine yields_take closed (by rcases isUpdate with same | same <;> rw [same] <;> decide)
      fun taken => ?_
    exact .pure ⟨taken.turn (by simp) _, fun ⟨sofar, chain⟩ =>
      ⟨(sofar.trans taken).node (by decide),
        .postUpdate chain isUpdate (by simpa using sameLine)⟩⟩

theorem yields_suffixStep (start : State) (operand : Tree) (state : State)
    (closed : Closed state.rest) :
    Yields state
      (Round (ReadSince .suffixes levels start) (ReadSince .operand levels start) operand state)
      (suffixStep rules operand state) := by
  unfold suffixStep
  refine yields_current ?_
  change Yields state _ (EStateM.run _ state)
  split
  · next isDot =>
    refine yields_take closed (by rw [isDot]; decide) fun taken => ?_
    refine yields_current (yields_expectOr taken.closed (by decide) fun named isName => ?_)
    have read := taken.trans named
    exact .pure ⟨read.turn (by simp) _, fun ⟨sofar, chain⟩ =>
      ⟨(sofar.trans read).node (by decide), .member chain isDot isName⟩⟩
  · refine (reads_arguments sound).bind closed fun list stop read given => ?_
    refine .pure ⟨read.turn (given.full rfl) _, fun ⟨sofar, chain⟩ => ?_⟩
    rw [read.current] at chain
    exact ⟨consumes_makeCall (sofar.trans read), .call chain given⟩
  · next opens =>
    refine yields_ite (fun fresh => ?_) fun sameLine => ?_
    · refine .pure ⟨turn_none closed, fun ⟨sofar, chain⟩ => ⟨sofar, .operand chain ?_⟩⟩
      simp [extendsOperand, opens, fresh]
    · refine yields_take closed (by rw [opens]; decide) fun opened => ?_
      refine sound.expression.bind opened.closed fun key mid inner between => ?_
      refine yields_expect inner.closed (by decide) fun ended closes => ?_
      have read := opened.trans (inner.trans ended)
      exact .pure ⟨read.turn (by simp) _, fun ⟨sofar, chain⟩ =>
        ⟨(sofar.trans read).node (by decide),
          .index chain opens (by simpa using sameLine) between closes⟩⟩
  · next isUpdate => exact yields_postUpdate start closed (.inl isUpdate)
  · next isUpdate => exact yields_postUpdate start closed (.inr isUpdate)
  · next noDot noCall noIndex noIncrement noDecrement =>
    refine .pure ⟨turn_none closed, fun ⟨sofar, chain⟩ => ⟨sofar, .operand chain ?_⟩⟩
    unfold extendsOperand
    split <;> simp_all

theorem reads_suffixed : ReadsOne (suffixed rules) levels .operand := by
  intro start closed
  unfold suffixed
  refine (reads_primary sound).bind closed fun tree state read derived => ?_
  exact yields_iterate (yields_suffixStep sound start) read.closed ⟨read, .plainOperand derived⟩

theorem reads_unary : ReadsOne (unary rules) levels .unary := by
  intro state closed
  unfold unary
  refine yields_current ?_
  refine yields_ite (fun isOperator => ?_) fun plain => ?_
  · have notEnd : state.current.kind ≠ .endOfInput := by
      intro ended
      rw [ended] at isOperator
      exact absurd isOperator (by decide)
    refine yields_take closed notEnd fun taken => ?_
    refine sound.unary.bind taken.closed fun operand stop read applied => ?_
    exact .pure ⟨(taken.trans read).node (by decide), .unaryOperator isOperator applied⟩
  · refine (reads_suffixed sound state closed).mono ?_
    rintro tree stop ⟨read, derived⟩
    rw [read.current] at plain
    exact ⟨read, .unaryOperand (by simpa using plain) derived⟩

omit sound in
theorem operatorLabel_ne_error (operator : Kind) : operatorLabel operator ≠ .error := by
  unfold operatorLabel
  split <;> decide

theorem yields_binaryStep (start : State) (least : Nat) (left : Tree) (state : State)
    (closed : Closed state.rest) :
    Yields state
      (Round (ReadSince (.infixes least) levels start) (ReadSince (.binary least) levels start) left
        state)
      (binaryStep rules least left state) := by
  unfold binaryStep
  refine yields_current ?_
  change Yields state _ (EStateM.run _ state)
  split
  · next noOperator =>
    exact .pure ⟨turn_none closed, fun ⟨sofar, chain⟩ =>
      ⟨sofar, .binary chain (by simp [extendsInfix, noOperator])⟩⟩
  · next precedence binds =>
    refine yields_ite (fun loose => ?_) fun tight => ?_
    · refine .pure ⟨turn_none closed, fun ⟨sofar, chain⟩ => ⟨sofar, .binary chain ?_⟩⟩
      simpa [extendsInfix, binds] using loose
    · have notEnd : state.current.kind ≠ .endOfInput := by
        intro ended
        simp [ended, Kind.precedence?] at binds
      refine yields_take closed notEnd fun taken => ?_
      refine (sound.binary _).bind taken.closed fun right stop read applied => ?_
      have both := taken.trans read
      exact .pure ⟨both.turn (by simp) _, fun ⟨sofar, chain⟩ =>
        ⟨(sofar.trans both).node (operatorLabel_ne_error _),
          .infixOperator chain binds (Nat.le_of_not_lt tight) applied⟩⟩

theorem reads_binary (least : Nat) : ReadsOne (binary rules least) levels (.binary least) := by
  intro start closed
  unfold binary
  refine (reads_unary sound).bind closed fun tree state read derived => ?_
  exact yields_iterate (yields_binaryStep sound start least) read.closed
    ⟨read, .firstOperand derived⟩

theorem reads_ternary : ReadsOne (ternary rules) levels .ternary := by
  intro start closed
  unfold ternary
  refine (reads_binary sound 1).bind closed fun condition mid read tested => ?_
  refine yields_accept read.closed (by decide) (fun asked asks => ?_) fun noQuestion => ?_
  · refine sound.expression.bind asked.closed fun first between taken either => ?_
    refine yields_expect taken.closed (by decide) fun parted parts => ?_
    refine sound.expression.bind parted.closed fun second stop rest other => ?_
    exact .pure ⟨(read.trans (asked.trans (taken.trans (parted.trans rest)))).node (by decide),
      .choice tested asks either parts other⟩
  · exact .pure ⟨read, .noChoice tested noQuestion⟩

omit sound in
theorem assignmentLabel_ne_error (operator : Kind) : assignmentLabel operator ≠ .error := by
  unfold assignmentLabel
  split <;> decide

theorem reads_expression : ReadsOne (expression rules) levels .expression := by
  intro start closed
  unfold expression
  refine (reads_ternary sound).bind closed fun target mid read assigned => ?_
  refine yields_current ?_
  refine yields_ite (fun isOperator => ?_) fun noOperator => ?_
  · have notEnd : mid.current.kind ≠ .endOfInput := by
      intro ended
      rw [ended] at isOperator
      exact absurd isOperator (by decide)
    refine yields_take read.closed notEnd fun taken => ?_
    refine sound.expression.bind taken.closed fun value stop rest given => ?_
    exact .pure ⟨(read.trans (taken.trans rest)).node (assignmentLabel_ne_error _),
      .assignment assigned isOperator given⟩
  · exact .pure ⟨read, .noAssignment assigned (by simpa using noOperator)⟩

end Expressions

section Statements

variable {rules : Rules} {levels : Nat} (sound : Sound rules levels)

include sound

omit sound in
theorem reads_endStatement (levels : Nat) : ReadsRun endStatement levels .ending := by
  intro state closed
  unfold endStatement
  refine yields_accept closed (by decide) (fun taken isSemicolon => ?_) fun missing => ?_
  · exact .pure ⟨taken, .semicolon isSemicolon⟩
  · refine yields_seesAny (fun ends => ?_) fun noCloser => ?_
    · exact .pure ⟨.refl closed, .noSemicolon missing (by simp only [endsStatement, ends]; rfl)⟩
    refine yields_onNewLine (fun fresh => ?_) fun _ => ?_
    · exact .pure ⟨.refl closed, .noSemicolon missing (by simp [endsStatement, fresh])⟩
    · exact yields_current (yields_fail closed)

theorem reads_ifStatement : ReadsOne (ifStatement rules) levels .statement := by
  intro start closed
  unfold ifStatement
  refine yields_expect closed (by decide) fun taken isWord => ?_
  refine (reads_parentheses sound).bind taken.closed fun condition mid read tested => ?_
  refine sound.statement.bind read.closed fun first after rest governed => ?_
  rw [rest.current] at tested
  have head := taken.trans (read.trans rest)
  refine yields_accept rest.closed (by decide) (fun other isElse => ?_) fun noElse => ?_
  · refine sound.statement.bind other.closed fun second stop last alternative => ?_
    have derived := Derives.ifElseStatement isWord tested governed isElse alternative
    exact .pure ⟨(head.trans (other.trans last)).node (by decide), by simpa using derived⟩
  · exact .pure ⟨head.node (by decide), .ifStatement isWord tested governed noElse⟩

theorem reads_whileStatement : ReadsOne (whileStatement rules) levels .statement := by
  intro start closed
  unfold whileStatement
  refine yields_expect closed (by decide) fun taken isWord => ?_
  refine (reads_parentheses sound).bind taken.closed fun condition mid read tested => ?_
  refine sound.statement.bind read.closed fun body stop rest governed => ?_
  rw [rest.current] at tested
  exact .pure ⟨(taken.trans (read.trans rest)).node (by decide),
    .whileStatement isWord tested governed⟩

theorem reads_doWhileStatement : ReadsOne (doWhileStatement rules) levels .statement := by
  intro start closed
  unfold doWhileStatement
  refine yields_expect closed (by decide) fun taken isWord => ?_
  refine sound.statement.bind taken.closed fun body mid read governed => ?_
  refine yields_expect read.closed (by decide) fun again isWhile => ?_
  refine (reads_parentheses sound).bind again.closed fun condition after rest tested => ?_
  refine (reads_endStatement levels).bind rest.closed fun ending stop last ends => ?_
  rw [last.current] at tested
  have head := taken.trans (read.trans again)
  exact .pure ⟨((head.trans rest).trans last).node (by decide),
    .doWhileStatement isWord governed isWhile tested ends⟩

theorem reads_declarator : ReadsOne (declarator rules) levels .declarator := by
  intro start closed
  unfold declarator
  refine yields_current (yields_expectOr closed (by decide) fun named isName => ?_)
  refine yields_accept named.closed (by decide) (fun taken isAssign => ?_) fun noAssign => ?_
  · refine sound.expression.bind taken.closed fun value stop read given => ?_
    exact .pure ⟨(named.trans (taken.trans read)).node (by decide),
      .declaratorValue isName isAssign given⟩
  · exact .pure ⟨named.node (by decide), .declarator isName noAssign⟩

theorem yields_localVariables {state : State} (closed : Closed state.rest) :
    Yields state (fun trees stop => Consumes state trees stop ∧
      ∃ keyword declarators, keyword.kind = .kwLocal ∧ trees = .leaf keyword :: declarators ∧
        Derives levels (.separated .declarator) declarators stop.current)
      (localVariables rules state) := by
  unfold localVariables
  refine yields_expect closed (by decide) fun taken isWord => ?_
  refine (reads_commaSeparated (reads_declarator sound)).bind taken.closed
    fun declarators stop read declared => ?_
  exact .pure ⟨taken.trans read, _, declarators, isWord, rfl, declared⟩

theorem reads_localDeclaration : ReadsOne (localDeclaration rules) levels .statement := by
  intro start closed
  unfold localDeclaration
  apply (yields_localVariables sound closed).andThen
  rintro _ mid read ⟨keyword, declarators, isWord, rfl, declared⟩
  refine (reads_endStatement levels).bind read.closed fun ending stop last ends => ?_
  rw [last.current] at declared
  exact .pure ⟨(read.trans last).node (by decide), .localDeclaration isWord declared ends⟩

theorem reads_constDeclaration : ReadsOne (constDeclaration rules) levels .statement := by
  intro start closed
  unfold constDeclaration
  refine yields_expect closed (by decide) fun taken isWord => ?_
  refine yields_expectOr taken.closed (by decide) fun named isName => ?_
  refine yields_expect named.closed (by decide) fun signed isAssign => ?_
  refine sound.expression.bind signed.closed fun value mid read given => ?_
  refine (reads_endStatement levels).bind read.closed fun ending stop last ends => ?_
  rw [last.current] at given
  exact .pure ⟨((taken.trans (named.trans (signed.trans read))).trans last).node (by decide),
    .constDeclaration isWord isName isAssign given ends⟩

theorem reads_forInit : ReadsRun (forInit rules) levels .forInit := by
  intro state closed
  unfold forInit
  refine yields_sees (fun _ => ?_) fun noLocal => ?_
  · apply (yields_localVariables sound closed).andThen
    rintro _ stop read ⟨keyword, declarators, isWord, rfl, declared⟩
    exact .pure ⟨read.node (by decide), .forLocal isWord declared⟩
  refine yields_sees (fun ends => .pure ⟨.refl closed, .forNothing ends⟩) fun present => ?_
  refine sound.expression.bind closed fun tree stop read value => ?_
  rw [read.current] at noLocal present
  exact .pure ⟨read, .forExpression noLocal present value⟩

theorem reads_optionalExpression (closer : Kind) :
    ReadsRun (optionalExpression rules closer) levels (.optionalExpression closer) := by
  intro state closed
  unfold optionalExpression
  refine yields_sees (fun ends => .pure ⟨.refl closed, .noExpression ends⟩) fun present => ?_
  refine sound.expression.bind closed fun tree stop read value => ?_
  rw [read.current] at present
  exact .pure ⟨read, .someExpression present value⟩

theorem reads_forStatement : ReadsOne (forStatement rules) levels .statement := by
  intro start closed
  unfold forStatement
  refine yields_expect closed (by decide) fun taken isWord => ?_
  refine yields_expect taken.closed (by decide) fun opened opens => ?_
  refine (reads_forInit sound).bind opened.closed fun init _ begun starts => ?_
  refine yields_expect begun.closed (by decide) fun first firstIs => ?_
  refine (reads_optionalExpression sound _).bind first.closed fun condition _ asked tested => ?_
  refine yields_expect asked.closed (by decide) fun second secondIs => ?_
  refine (reads_optionalExpression sound _).bind second.closed fun step _ moved stepped => ?_
  refine yields_expect moved.closed (by decide) fun ended closes => ?_
  refine sound.statement.bind ended.closed fun body stop last governed => ?_
  have isInit : Label.forInit ≠ .error := by decide
  have isCondition : Label.forCondition ≠ .error := by decide
  have isStep : Label.forStep ≠ .error := by decide
  have clauses := (begun.node isInit).trans (first.trans ((asked.node isCondition).trans
    (second.trans ((moved.node isStep).trans (ended.trans last)))))
  exact .pure ⟨(taken.trans (opened.trans clauses)).node (by decide),
    .forStatement isWord opens starts firstIs tested secondIs stepped closes governed⟩

omit sound in
theorem yields_foreachVariables {state : State} (closed : Closed state.rest) :
    Yields state (fun tree stop => Consumes state [tree] stop ∧
      ∃ names, tree = .node .foreachVariables names ∧ LoopNames names)
      (foreachVariables state) := by
  unfold foreachVariables
  refine yields_expectOr closed (by decide) fun named isName => ?_
  refine yields_accept named.closed (by decide) (fun taken isComma => ?_) fun _ => ?_
  · refine yields_expectOr taken.closed (by decide) fun valued isValue => ?_
    exact .pure ⟨(named.trans (taken.trans valued)).node (by decide), _, rfl,
      .inr ⟨_, _, _, isName, isComma, isValue, rfl⟩⟩
  · exact .pure ⟨named.node (by decide), _, rfl, .inl ⟨_, isName, rfl⟩⟩

theorem reads_foreachStatement : ReadsOne (foreachStatement rules) levels .statement := by
  intro start closed
  unfold foreachStatement
  refine yields_expect closed (by decide) fun taken isWord => ?_
  refine yields_expect taken.closed (by decide) fun opened opens => ?_
  apply (yields_foreachVariables opened.closed).andThen
  rintro _ mid read ⟨names, rfl, named⟩
  refine yields_expect read.closed (by decide) fun joined isIn => ?_
  refine sound.expression.bind joined.closed fun container _ gone iterated => ?_
  refine yields_expect gone.closed (by decide) fun ended closes => ?_
  refine sound.statement.bind ended.closed fun body stop last governed => ?_
  have whole := taken.trans (opened.trans (read.trans (joined.trans (gone.trans
    (ended.trans last)))))
  exact .pure ⟨whole.node (by decide),
    .foreachStatement isWord opens named isIn iterated closes governed⟩

theorem reads_caseBody : ReadsOne (caseBody rules) levels .caseBody := by
  intro start closed
  unfold caseBody
  refine (reads_statements sound _).bind closed fun trees stop read inside => ?_
  exact .pure ⟨read.node (by decide), .caseBody inside⟩

theorem reads_switchClause : ReadsOne (switchClause rules) levels .clause := by
  intro start closed
  unfold switchClause
  refine yields_sees (fun isWord => ?_) fun _ => ?_
  · refine yields_take closed (by rw [isWord]; decide) fun taken => ?_
    refine sound.expression.bind taken.closed fun value mid read compared => ?_
    refine yields_expect read.closed (by decide) fun parted isColon => ?_
    refine (reads_caseBody sound).bind parted.closed fun body stop rest inside => ?_
    exact .pure ⟨(taken.trans (read.trans (parted.trans rest))).node (by decide),
      .caseClause isWord compared isColon inside⟩
  refine yields_sees (fun isWord => ?_) fun _ => yields_current (yields_fail closed)
  refine yields_take closed (by rw [isWord]; decide) fun taken => ?_
  refine yields_expect taken.closed (by decide) fun parted isColon => ?_
  refine (reads_caseBody sound).bind parted.closed fun body stop rest inside => ?_
  exact .pure ⟨(taken.trans (parted.trans rest)).node (by decide),
    .defaultClause isWord isColon inside⟩

theorem round_clause (state : State) (closed : Closed state.rest) :
    Yields state (ManyRound (Derives levels .clauses) state) (clauseRound rules state) := by
  refine yields_seesAny (fun ends => .pure ⟨rfl, .noClause ends⟩) fun goesOn => ?_
  refine (reads_switchClause sound).bind closed fun clause stop read derived => ?_
  refine .pure ⟨read, derived.full rfl, fun others final rest met => ?_⟩
  rw [(read.trans rest).current] at goesOn
  rw [rest.current] at derived
  exact .clauses goesOn derived met

theorem reads_switchStatement : ReadsOne (switchStatement rules) levels .statement := by
  intro start closed
  unfold switchStatement
  refine yields_expect closed (by decide) fun taken isWord => ?_
  refine (reads_parentheses sound).bind taken.closed fun subject mid read tested => ?_
  refine yields_expect read.closed (by decide) fun opened opens => ?_
  refine (reads_many (round_clause sound)).bind opened.closed fun list after rest between => ?_
  refine yields_expect rest.closed (by decide) fun ended closes => ?_
  have head := (taken.trans read).trans opened
  exact .pure ⟨((head.trans rest).trans ended).node (by decide),
    .switchStatement isWord tested opens between closes⟩

theorem reads_tryStatement : ReadsOne (tryStatement rules) levels .statement := by
  intro start closed
  unfold tryStatement
  refine yields_expect closed (by decide) fun taken isWord => ?_
  refine sound.statement.bind taken.closed fun body mid read governed => ?_
  refine yields_expect read.closed (by decide) fun caught isCatch => ?_
  refine yields_expect caught.closed (by decide) fun opened opens => ?_
  refine yields_expectOr opened.closed (by decide) fun named isName => ?_
  refine yields_expect named.closed (by decide) fun ended closes => ?_
  refine sound.statement.bind ended.closed fun handler stop last handled => ?_
  have whole := taken.trans (read.trans (caught.trans (opened.trans (named.trans
    (ended.trans last)))))
  exact .pure ⟨whole.node (by decide),
    .tryStatement isWord governed isCatch opens isName closes handled⟩

omit sound in
theorem round_path (levels : Nat) (state : State) (closed : Closed state.rest) :
    Yields state (ManyRound (Derives levels .namePath) state) (pathRound state) := by
  refine yields_seesAny (fun separates => ?_) fun ends => .pure ⟨rfl, .pathEnd ends⟩
  have notEnd : state.current.kind ≠ .endOfInput := by
    intro ended
    simp [ended] at separates
  refine yields_take closed notEnd fun taken => ?_
  refine yields_expectOr taken.closed (by decide) fun named isName => ?_
  exact .pure ⟨taken.trans named, by simp, fun others final rest met =>
    .pathStep separates isName met⟩

omit sound in
theorem reads_functionName (levels : Nat) : ReadsOne functionName levels .functionName := by
  intro start closed
  unfold functionName
  have path : ReadsRun (many pathRound) levels .namePath := reads_many (round_path levels)
  refine yields_optional closed (by decide) (fun rooted areColons => ?_) fun _ => ?_
  · refine yields_expectOr rooted.closed (by decide) fun named isName => ?_
    refine path.bind named.closed fun trees stop rest goesOn => ?_
    exact .pure ⟨((rooted.trans named).trans rest).node (by decide),
      .rootedName areColons isName goesOn⟩
  · refine yields_expectOr closed (by decide) fun named isName => ?_
    refine path.bind named.closed fun trees stop rest goesOn => ?_
    exact .pure ⟨(named.trans rest).node (by decide), .plainName isName goesOn⟩

omit sound in
theorem yields_functionEnd {state : State} (closed : Closed state.rest) {post : Tree → State → Prop}
    {further : List Tree → Rule Tree}
    (found : Consumes state [.leaf state.current] state.advance →
      closesFunction state.current →
      Yields state.advance post (further [.leaf state.current] state.advance))
    (absent : closesFunction state.current = false → Yields state post (further [] state)) :
    Yields state post ((do
      let ending ← if (← sees .semicolon) && !(← onNewLine) then pure [← take] else pure []
      further ending : Rule Tree) state) := by
  refine yields_sees (fun same => ?_) fun other => ?_
  · refine yields_onNewLine (fun fresh => ?_) fun sameLine => ?_
    · exact absent (by simp [closesFunction, fresh])
    · refine yields_take closed (by rw [same]; decide) fun taken => ?_
      exact found taken (by simp [closesFunction, same, sameLine])
  · exact absent (by simp [closesFunction, other])

theorem yields_functionDeclaration {start state : State} (scope : List Token)
    (before : Consumes start (scope.map .leaf) state)
    (placed : scope = [] ∨ ∃ word : Token, word.kind = .kwLocal ∧ scope = [word]) :
    Yields state (ReadSince .statement levels start) ((do
        let keyword ← expect .kwFunction
        let name ← functionName
        let list ← parameters rules
        let body ← block rules
        let ending ← if (← sees .semicolon) && !(← onNewLine) then pure [← take] else pure []
        return .node .functionDeclaration
          (scope.map .leaf ++ [keyword, name, list, body] ++ ending) : Rule Tree) state) := by
  refine yields_expect before.closed (by decide) fun taken isWord => ?_
  refine (reads_functionName levels).bind taken.closed fun name _ read named => ?_
  refine (reads_parameters sound).bind read.closed fun list _ given head => ?_
  refine (reads_block sound).bind given.closed fun body mid rest inside => ?_
  have whole := before.trans (taken.trans (read.trans (given.trans rest)))
  rw [given.current, rest.current] at named
  rw [rest.current] at head
  refine yields_functionEnd rest.closed (fun last closes => ?_) fun noEnd => ?_
  · have derived : Derives levels .statement [.node .functionDeclaration (scope.map .leaf ++
        [.leaf state.current, name, list, body] ++ [mid.current].map .leaf)]
        mid.advance.current :=
      .functionDeclaration placed isWord named head inside (.inr ⟨_, closes, rfl⟩)
    exact .pure ⟨(whole.trans last).node (by decide), derived⟩
  · have derived : Derives levels .statement [.node .functionDeclaration (scope.map .leaf ++
        [.leaf state.current, name, list, body] ++ ([] : List Token).map .leaf)] mid.current :=
      .functionDeclaration placed isWord named head inside (.inl ⟨rfl, noEnd⟩)
    have consumed := whole.trans (.refl rest.closed)
    exact .pure ⟨consumed.node (by decide), derived⟩

theorem reads_functionDeclaration : ReadsOne (functionDeclaration rules) levels .statement := by
  intro start closed
  unfold functionDeclaration
  refine yields_optional closed (by decide) (fun taken isWord => ?_) fun _ => ?_
  · exact yields_functionDeclaration sound [start.current] taken (.inr ⟨_, isWord, rfl⟩)
  · exact yields_functionDeclaration sound [] (.refl closed) (.inl rfl)

theorem reads_returnStatement : ReadsOne (returnStatement rules) levels .statement := by
  intro start closed
  unfold returnStatement
  refine yields_expect closed (by decide) fun taken isWord => ?_
  -- Without a value the ending is read where the value would start.
  have noValue : endsReturn start.advance.current →
      Yields start.advance (ReadSince .statement levels start)
        ((do return .node .returnStatement (.leaf start.current :: [] ++ (← endStatement)) :
          Rule Tree) start.advance) := by
    intro nothing
    refine (reads_endStatement levels).bind taken.closed fun ending stop last ends => ?_
    rw [last.current] at nothing
    exact .pure ⟨(taken.trans last).node (by decide), .returnNothing isWord nothing ends⟩
  refine yields_seesAny (fun ends => ?_) fun goesOn => ?_
  · exact noValue (by simp only [endsReturn, ends]; rfl)
  refine yields_onNewLine (fun fresh => ?_) fun sameLine => ?_
  · exact noValue (by simp [endsReturn, fresh])
  have present : endsReturn start.advance.current = false := by
    simp only [endsReturn, goesOn, sameLine]
    rfl
  refine sound.expression.bind taken.closed fun value mid read given => ?_
  refine (reads_endStatement levels).bind read.closed fun ending stop last ends => ?_
  rw [read.current, last.current] at present
  rw [last.current] at given
  exact .pure ⟨((taken.trans read).trans last).node (by decide),
    .returnValue isWord present given ends⟩

omit sound in
theorem yields_jumpStatement {state : State} {label : Label} (closed : Closed state.rest)
    (goesOn : state.current.kind ≠ .endOfInput) (proper : label ≠ .error)
    (derived : ∀ ending next, Derives levels .ending ending next →
      Derives levels .statement [.node label (.leaf state.current :: ending)] next) :
    Yields state (ReadSince .statement levels state) (jumpStatement label state) := by
  unfold jumpStatement
  refine yields_take closed goesOn fun taken => ?_
  refine (reads_endStatement levels).bind taken.closed fun ending stop last ends => ?_
  exact .pure ⟨(taken.trans last).node proper, derived ending _ ends⟩

theorem yields_throwStatement {state : State} (closed : Closed state.rest)
    (isWord : state.current.kind = .kwThrow) :
    Yields state (ReadSince .statement levels state) (throwStatement rules state) := by
  unfold throwStatement
  refine yields_take closed (by rw [isWord]; decide) fun taken => ?_
  refine sound.expression.bind taken.closed fun value mid read thrown => ?_
  refine (reads_endStatement levels).bind read.closed fun ending stop last ends => ?_
  rw [last.current] at thrown
  exact .pure ⟨((taken.trans read).trans last).node (by decide),
    .throwStatement isWord thrown ends⟩

theorem yields_expressionStatement {state : State} (closed : Closed state.rest)
    (plain : leadsStatement state.current.kind = false) :
    Yields state (ReadSince .statement levels state) (expressionStatement rules state) := by
  unfold expressionStatement
  refine sound.expression.bind closed fun value mid read evaluated => ?_
  refine (reads_endStatement levels).bind read.closed fun ending stop last ends => ?_
  rw [read.current, last.current] at plain
  rw [last.current] at evaluated
  exact .pure ⟨(read.trans last).node (by decide), .expressionStatement plain evaluated ends⟩

theorem reads_statement : ReadsOne (statement rules) levels .statement := by
  intro state closed
  unfold statement
  refine yields_next (yields_current ?_)
  unfold statementFrom
  change Yields state _ (EStateM.run _ state)
  split
  · refine (reads_block sound state closed).mono ?_
    rintro tree stop ⟨read, inside⟩
    exact ⟨read, .blockStatement inside⟩
  · next isSemicolon =>
    exact yields_single closed (by rw [isSemicolon]; decide) (by decide)
      fun _ => .emptyStatement isSemicolon
  · exact reads_ifStatement sound state closed
  · exact reads_whileStatement sound state closed
  · exact reads_doWhileStatement sound state closed
  · exact reads_forStatement sound state closed
  · exact reads_foreachStatement sound state closed
  · exact reads_switchStatement sound state closed
  · exact reads_tryStatement sound state closed
  · exact yields_ite (fun _ => reads_functionDeclaration sound state closed)
      fun _ => reads_localDeclaration sound state closed
  · exact reads_constDeclaration sound state closed
  · next isWord =>
    exact yields_ite (fun _ => yields_expressionStatement sound closed (by rw [isWord]; rfl))
      fun _ => reads_functionDeclaration sound state closed
  · exact reads_returnStatement sound state closed
  · next isWord =>
    exact yields_jumpStatement closed (by rw [isWord]; decide) (by decide)
      fun _ _ => .breakStatement isWord
  · next isWord =>
    exact yields_jumpStatement closed (by rw [isWord]; decide) (by decide)
      fun _ _ => .continueStatement isWord
  · next isWord => exact yields_throwStatement sound closed isWord
  · refine yields_expressionStatement sound closed ?_
    unfold leadsStatement
    split <;> simp_all

end Statements

section Programs

theorem ReadsOne.deeper {rule : Rule Tree} {levels : Nat} {category : Category}
    (reads : ReadsOne rule levels category) : ReadsOne rule (levels + 1) (.deeper category) := by
  intro start closed
  refine (reads start closed).mono ?_
  rintro tree stop ⟨read, derived⟩
  exact ⟨read, .deeper derived⟩

theorem readsOne_tooDeep (levels : Nat) (category : Category) :
    ReadsOne (throw .tooDeep) levels category :=
  fun _ closed => ⟨.refl closed, by rintro cause token ⟨⟩⟩

theorem sound_rules (levels : Nat) : Sound (rules levels) levels := by
  induction levels with
  | zero =>
    exact ⟨rfl, readsOne_tooDeep 0 _, readsOne_tooDeep 0 _, readsOne_tooDeep 0 _,
      fun _ => readsOne_tooDeep 0 _, readsOne_tooDeep 0 _⟩
  | succ levels ih =>
    exact ⟨rfl, (reads_statement ih).deeper, (reads_expression ih).deeper, (reads_ternary ih).deeper,
      fun least => (reads_binary ih least).deeper, (reads_unary ih).deeper⟩

theorem Derives.statements_end {levels : Nat} {trees : List Tree} {next : Token}
    (derived : Derives levels (.statements []) trees next) : next.kind = .endOfInput := by
  generalize isList : Category.statements [] = category at derived
  induction derived with
  | noStatement ends =>
    cases isList
    rcases ends with ended | closed
    · exact ended
    · simp at closed
  | statements _ _ _ _ _ others => exact others isList
  | _ => cases isList

theorem Consumes.ended {start stop : State} {trees : List Tree} {levels : Nat}
    (consumed : Consumes start trees stop)
    (derived : Derives levels (.statements []) trees stop.current) : stop.rest = [stop.current] := by
  obtain ⟨rest, shape⟩ := consumed.closed.shape
  have closed := consumed.closed
  rw [shape] at closed
  rw [shape, closed.single derived.statements_end]

/-- A program: statements in front of the end. What was reported is about its error nodes, and each
of these was reported, unless it is there for a malformed token. -/
structure IsProgram [NestingLimit] (tokens : List Token) (parsed : Parsed) (trees : List Tree)
    (last : Token) :
    Prop where
  tree : parsed.tree = .node .program (trees ++ [.leaf last])
  split : tokens = tokensOf trees ++ [last]
  derived : Derives nestingLimit (.statements []) trees last
  located : ∀ diagnostic ∈ parsed.diagnostics,
    ∃ site ∈ errorSitesOf trees [last], Blames diagnostic site.reach
  witnessed : ∀ site ∈ errorSitesOf trees [last], (∃ token ∈ site.inside, token.kind = .error) ∨
    ∃ diagnostic ∈ parsed.diagnostics, Blames diagnostic site.reach

theorem Closed.last {tokens : List Token} {front : List Token} {last : Token}
    (closed : Closed tokens) (shape : tokens = front ++ [last]) : last.kind = .endOfInput := by
  rw [shape] at closed
  exact closed.of_append (by simp)

theorem Closed.front {front : List Token} {last : Token} (closed : Closed (front ++ [last])) :
    ∀ token ∈ front, token.kind ≠ .endOfInput := by
  induction front with
  | nil => simp
  | cons token front ih =>
    obtain ⟨next, rest, shape⟩ :=
      List.exists_cons_of_ne_nil (l := front ++ [last]) (by simp)
    rw [List.cons_append, shape] at closed
    obtain ⟨notEnd, others⟩ := closed
    rw [← shape] at others
    intro other member
    rcases List.mem_cons.mp member with rfl | later
    · exact notEnd
    · exact ih others other later

theorem derives_flat [NestingLimit] {front : List Token} {last : Token}
    (closed : Closed (front ++ [last])) :
    Derives nestingLimit (.statements []) (if front.isEmpty then [] else [errorNode front])
      last := by
  have ended : last.kind = .endOfInput := closed.last rfl
  cases front with
  | nil => exact .noStatement (.inl ended)
  | cons token front =>
    have goesOn := closed.front token (by simp)
    refine .statements ?_ (by simp) (.skippedUnit (by simp)) (.noStatement (.inl ended))
    simpa [Tree.nextOf, errorNode] using goesOn

theorem iterate_none {α : Type} {step : α → Rule (Option α)} {value : α} {state stop : State}
    (stops : step value state = .ok none stop) : iterate step value state = .ok value stop := by
  rw [iterate, stops]

theorem statements_alone [NestingLimit] {last : Token} (ended : last.kind = .endOfInput) :
    statements allRules [] (.ofTokens [last]) = .ok [] (.ofTokens [last]) := by
  have stops : statementRound allRules [] (.ofTokens [last]) = .ok none (.ofTokens [last]) := by
    change (if (decide (last.kind = .endOfInput) || false) = true then _ else _ : Rule _) _ = _
    rw [if_pos (by simp [ended])]
    rfl
  refine iterate_none ?_
  change EStateM.bind _ _ _ = _
  rw [EStateM.bind, stops]
  rfl

theorem blames_flat {front : List Token} {token last : Token} {failure : Failure} {stop : State}
    (failed : Fails (.ofTokens (token :: front ++ [last])) failure stop) :
    ∀ diagnostic ∈ (stop.report .nestingTooDeep token).diagnostics,
      Blames diagnostic (ErrorSite.reach ⟨token :: front, [last]⟩) := by
  obtain ⟨read, shape⟩ := failed.reaches.read
  have whole : token :: front ++ [last] = read ++ stop.rest := shape
  intro diagnostic member
  rw [State.report, List.mem_append, List.mem_singleton] at member
  rcases member with earlier | rfl
  · have blames := (failed.reaches.located read shape diagnostic earlier).resolve_left
      List.not_mem_nil
    refine blames.mono ?_
    have reach : ErrorSite.reach ⟨token :: front, [last]⟩ = read ++ stop.rest := whole
    rw [reach]
    exact List.append_subset.mpr ⟨List.subset_append_left _ _,
      List.Subset.trans (List.take_subset _ _) (List.subset_append_right _ _)⟩
  · exact ⟨rfl, token, by simp [ErrorSite.reach], rfl⟩

theorem parseTokens_isProgram [NestingLimit] {tokens : List Token} (closed : Closed tokens) :
    ∃ trees last, IsProgram tokens (parseTokens tokens) trees last := by
  have read := reads_statements (sound_rules nestingLimit) [] (.ofTokens tokens) closed
  unfold parseTokens program
  cases ran : statements allRules [] (.ofTokens tokens) with
  | ok trees stop =>
    rw [show statements (rules nestingLimit) [] (.ofTokens tokens) = .ok trees stop from ran]
      at read
    obtain ⟨consumed, derived⟩ := read
    have ahead := consumed.ended derived
    have whole : tokens = tokensOf trees ++ [stop.current] := ahead ▸ consumed.rest
    have located := consumed.located
    have witnessed := consumed.witnessed
    rw [ahead] at located witnessed
    refine ⟨trees, stop.current, ?_, whole, derived, ?_, witnessed⟩
    · simp [whole]
    · intro diagnostic member
      exact (located diagnostic member).resolve_left List.not_mem_nil
  | error failure stop =>
    have split := (List.dropLast_concat_getLast closed.ne_nil).symm
    generalize tokens.dropLast = front at split
    generalize tokens.getLast closed.ne_nil = last at split
    subst split
    have failed : Fails (.ofTokens (front ++ [last])) failure stop := by
      rw [show statements (rules nestingLimit) [] (.ofTokens (front ++ [last])) = _ from ran] at read
      exact read
    cases front with
    | nil =>
      rw [List.nil_append, statements_alone (closed.last rfl)] at ran
      cases ran
    | cons token front =>
      have blames := blames_flat failed
      refine ⟨[errorNode (token :: front)], last, ?_, ?_, derives_flat closed, ?_, ?_⟩
      · have inner : (token :: front ++ [last]).dropLast = token :: front := List.dropLast_concat
        have ended : (token :: front ++ [last]).getLast? = some last := List.getLast?_concat
        simp only [flatProgram, inner, ended]
        rfl
      · simp [errorNode]
      · rw [errorSitesOf_errorNode]
        intro diagnostic member
        exact ⟨_, List.mem_singleton_self _, blames diagnostic member⟩
      · rw [errorSitesOf_errorNode]
        intro site member
        obtain rfl := List.mem_singleton.mp member
        have own : (⟨.grammatical .nestingTooDeep, .error, token.span⟩ : Diagnostic) ∈
            (stop.report .nestingTooDeep token).diagnostics := by simp [State.report]
        exact .inr ⟨_, own, blames _ own⟩

end Programs

end Squirrel.Grammar
