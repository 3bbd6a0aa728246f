import Mathlib.Data.List.TakeDrop
import Squirrel.Proofs.Grammar.Lossless

/-! Reading goes on: no rule reads nothing, no loop goes round without reading, and the end is never
passed. -/

namespace Squirrel.Grammar

open Squirrel.Tree (tokensOf)

variable {α : Type}

section Constructs

/-- The rules for statements, expressions and their parts. -/
inductive Construct (rules : Rules) : {α : Type} → Rule α → Prop
  | statement : Construct rules (statement rules)
  | block : Construct rules (block rules)
  | parentheses : Construct rules (parentheses rules)
  | ifStatement : Construct rules (ifStatement rules)
  | whileStatement : Construct rules (whileStatement rules)
  | doWhileStatement : Construct rules (doWhileStatement rules)
  | forStatement : Construct rules (forStatement rules)
  | foreachStatement : Construct rules (foreachStatement rules)
  | switchStatement : Construct rules (switchStatement rules)
  | tryStatement : Construct rules (tryStatement rules)
  | localDeclaration : Construct rules (localDeclaration rules)
  | localVariables : Construct rules (localVariables rules)
  | declarator : Construct rules (declarator rules)
  | constDeclaration : Construct rules (constDeclaration rules)
  | functionDeclaration : Construct rules (functionDeclaration rules)
  | returnStatement : Construct rules (returnStatement rules)
  | expression : Construct rules (expression rules)
  | ternary : Construct rules (ternary rules)
  | binary (least : Nat) : Construct rules (binary rules least)
  | unary : Construct rules (unary rules)
  | suffixed : Construct rules (suffixed rules)
  | primary : Construct rules (primary rules)
  | arguments : Construct rules (arguments rules)
  | parameters : Construct rules (parameters rules)
  | lambda : Construct rules (lambda rules)
  | array : Construct rules (array rules)
  | table : Construct rules (table rules)
  | tableEntry : Construct rules (tableEntry rules)

def Advances {α : Type} (rule : Rule α) : Prop :=
  ∀ state, Closed state.rest →
    Yields state (fun _ stop => Reaches state stop ∧ stop.rest.length < state.rest.length)
      (rule state)

variable {levels : Nat}

theorem Reads.advances {rule : Rule α} {trees : α → List Tree} {post : α → Token → Prop}
    (reads : Reads rule trees post)
    (full : ∀ value next, post value next → tokensOf (trees value) ≠ []) : Advances rule :=
  fun state closed => (reads state closed).mono fun value _ ⟨read, met⟩ =>
    ⟨read.reaches, read.shorter (full value _ met)⟩

theorem ReadsOne.advances {rule : Rule Tree} {category : Category}
    (reads : ReadsOne rule levels category) (full : category.isFull := by rfl) : Advances rule :=
  Reads.advances reads fun _ _ derived => derived.full full

theorem advances_construct {rule : Rule α} (construct : Construct (rules levels) rule) :
    Advances rule := by
  have sound := sound_rules levels
  cases construct with
  | statement => exact (reads_statement sound).advances
  | block => exact (reads_block sound).advances
  | parentheses => exact Reads.advances (reads_parentheses sound) fun _ _ given => given.full
  | ifStatement => exact (reads_ifStatement sound).advances
  | whileStatement => exact (reads_whileStatement sound).advances
  | doWhileStatement => exact (reads_doWhileStatement sound).advances
  | forStatement => exact (reads_forStatement sound).advances
  | foreachStatement => exact (reads_foreachStatement sound).advances
  | switchStatement => exact (reads_switchStatement sound).advances
  | tryStatement => exact (reads_tryStatement sound).advances
  | localDeclaration => exact (reads_localDeclaration sound).advances
  | localVariables =>
    refine fun state closed => (yields_localVariables sound closed).mono ?_
    rintro trees stop ⟨read, keyword, declarators, -, rfl, -⟩
    exact ⟨read.reaches, read.shorter (by simp)⟩
  | declarator => exact (reads_declarator sound).advances
  | constDeclaration => exact (reads_constDeclaration sound).advances
  | functionDeclaration => exact (reads_functionDeclaration sound).advances
  | returnStatement => exact (reads_returnStatement sound).advances
  | expression => exact (reads_expression sound).advances
  | ternary => exact (reads_ternary sound).advances
  | binary least => exact (reads_binary sound least).advances
  | unary => exact (reads_unary sound).advances
  | suffixed => exact (reads_suffixed sound).advances
  | primary => exact (reads_primary sound).advances
  | arguments => exact (reads_arguments sound).advances
  | parameters => exact (reads_parameters sound).advances
  | lambda => exact (reads_lambda sound).advances
  | array => exact (reads_array sound).advances
  | table => exact (reads_table sound).advances
  | tableEntry => exact (reads_tableEntry sound).advances

end Constructs

section Loops

/-- The loops of the grammar, by what one round of each does. -/
inductive Loop (rules : Rules) : {α : Type} → (α → Rule (Option α)) → Prop
  | statements (closers : List Kind) : Loop rules (gather (statementRound rules closers))
  | clauses : Loop rules (gather (clauseRound rules))
  | entries : Loop rules (gather
      (elementRound (recovering (tableEntry rules) skipFailedEntry) [.rightBrace, .endOfInput]))
  | items : Loop rules (gather (elementRound rules.expression [.rightBracket, .endOfInput]))
  | arguments : Loop rules (gather (commaRound rules.expression))
  | declarators : Loop rules (gather (commaRound (declarator rules)))
  | path : Loop rules (gather pathRound)
  | parameters : Loop rules (parameterRound rules)
  | operators (least : Nat) : Loop rules (binaryStep rules least)
  | suffixes : Loop rules (suffixStep rules)

variable {levels : Nat}

theorem turn_gather {step : Rule (Option (List Tree))} {run : List Tree → Token → Prop}
    (round : ∀ state, Closed state.rest → Yields state (ManyRound run state) (step state))
    (read : List Tree) (state : State) (closed : Closed state.rest) :
    Yields state (Turn state) (gather step read state) :=
  (round state closed).bind fun _ _ once =>
    have ⟨reached, shorter⟩ := once.turn closed
    .pure ⟨reached, fun more => shorter (by simpa using more)⟩

theorem turn_loop {step : α → Rule (Option α)} (loop : Loop (rules levels) step) (value : α)
    (state : State) (closed : Closed state.rest) :
    Yields state (Turn state) (step value state) := by
  have sound := sound_rules levels
  cases loop with
  | statements closers => exact turn_gather (round_statement sound closers) value state closed
  | clauses => exact turn_gather (round_clause sound) value state closed
  | entries => exact turn_gather (round_entry sound) value state closed
  | items => exact turn_gather (round_item sound) value state closed
  | arguments => exact turn_gather (round_comma sound.expression) value state closed
  | declarators => exact turn_gather (round_comma (reads_declarator sound)) value state closed
  | path => exact turn_gather (round_path levels) value state closed
  | parameters =>
    exact (yields_parameterRound sound state value state closed).mono fun _ _ once => once.1
  | operators least =>
    exact (yields_binaryStep sound state least value state closed).mono fun _ _ once => once.1
  | suffixes =>
    exact (yields_suffixStep sound state value state closed).mono fun _ _ once => once.1

/-- A loop that runs to its own end: each round that is followed by another one has read something,
and the last one answers `none` or fails. -/
inductive Rounds {α : Type} (step : α → Rule (Option α)) :
    α → State → EStateM.Result Failure State α → Prop
  | failed {value : α} {state stop : State} {failure : Failure}
    (fails : step value state = .error failure stop) :
    Rounds step value state (.error failure stop)
  | ended {value : α} {state stop : State} (ends : step value state = .ok none stop) :
    Rounds step value state (.ok value stop)
  | again {value further : α} {state stop : State} {result : EStateM.Result Failure State α}
    (goesOn : step value state = .ok (some further) stop)
    (shorter : stop.rest.length < state.rest.length) (others : Rounds step further stop result) :
    Rounds step value state result

theorem rounds_iterate {step : α → Rule (Option α)}
    (turns : ∀ value state, Closed state.rest → Yields state (Turn state) (step value state))
    {value : α} {state : State} (closed : Closed state.rest) :
    Rounds step value state (iterate step value state) := by
  generalize size : state.rest.length = length
  induction length using Nat.strongRecOn generalizing value state with
  | _ length ih =>
    have once := turns value state closed
    unfold iterate
    cases ran : step value state with
    | error failure stop => exact .failed ran
    | ok found stop =>
      rw [ran] at once
      cases found with
      | none => exact .ended ran
      | some further =>
        have shorter := once.2 rfl
        dsimp only
        rw [if_pos shorter]
        exact .again ran shorter (ih _ (size ▸ shorter) once.1.closed rfl)

end Loops

section Positions

def Ahead (tokens : List Token) (least : Nat) (rest : List Token) : Prop :=
  ∃ position, least ≤ position ∧ position < tokens.length ∧ rest = tokens.drop position

/-- Where a rule stops that starts at token number `start`: with a result from number `least` on,
after a failure not before the start, and in no case past the last token. -/
def Stops {α : Type} (tokens : List Token) (start least : Nat) :
    EStateM.Result Failure State α → Prop
  | .ok _ stop => Ahead tokens least stop.rest
  | .error _ stop => Ahead tokens start stop.rest

variable {tokens : List Token} {start : Nat} {state stop : State} {rest : List Token}

theorem Drops.ahead (there : state.rest = tokens.drop start) (drops : Drops state.rest rest) :
    Ahead tokens start rest := by
  obtain ⟨left, read, shape⟩ := drops
  have later : rest = tokens.drop (start + read.length) := by
    rw [← List.drop_drop, ← there, shape, List.drop_left]
  refine ⟨_, Nat.le_add_right _ _, ?_, later⟩
  rw [later] at left
  simpa using left

theorem Drops.past (there : state.rest = tokens.drop start) (drops : Drops state.rest rest)
    (shorter : rest.length < state.rest.length) : Ahead tokens (start + 1) rest := by
  obtain ⟨position, least, within, same⟩ := drops.ahead there
  refine ⟨position, Nat.lt_of_le_of_ne least ?_, within, same⟩
  rintro rfl
  rw [there, same] at shorter
  exact Nat.lt_irrefl _ shorter

theorem Reaches.drops (reached : Reaches state stop) : Drops state.rest stop.rest :=
  ⟨reached.closed.ne_nil, reached.read⟩

theorem Reaches.past (there : state.rest = tokens.drop start) (reached : Reaches state stop)
    (resumes : Resumes state stop rest) : Ahead tokens (start + 1) rest := by
  obtain ⟨⟨left, skipped, shapeLater⟩, shorter⟩ := resumes
  obtain ⟨read, shape⟩ := reached.read
  have whole : state.rest = (read ++ skipped) ++ rest := by
    rw [shape, shapeLater, List.append_assoc]
  exact Drops.past there ⟨left, _, whole⟩ shorter

theorem stops_construct {rule : Rule α} {levels : Nat} (construct : Construct (rules levels) rule)
    (there : state.rest = tokens.drop start) (closed : Closed state.rest) :
    Stops tokens start (start + 1) (rule state) := by
  have ran := advances_construct construct state closed
  cases result : rule state with
  | ok value stop =>
    rw [result] at ran
    exact ran.1.drops.past there ran.2
  | error failure stop =>
    rw [result] at ran
    exact ran.reaches.drops.ahead there

theorem stops_iterate {step : α → Rule (Option α)}
    (turns : ∀ value state, Closed state.rest → Yields state (Turn state) (step value state))
    {value : α} (there : state.rest = tokens.drop start) (closed : Closed state.rest) :
    Stops tokens start start (iterate step value state) := by
  let reached (_ : α) (mid : State) : Prop := Reaches state mid
  have ran : Yields state reached (iterate step value state) := by
    refine @yields_iterate _ _ reached reached (fun value mid closed => ?_) _ _ closed (.refl closed)
    refine (turns value mid closed).mono fun found stop turn => ⟨turn, fun before => ?_⟩
    have whole := before.trans turn.1
    cases found <;> exact whole
  cases result : iterate step value state with
  | ok value stop =>
    rw [result] at ran
    exact Reaches.drops ran |>.ahead there
  | error failure stop =>
    rw [result] at ran
    exact ran.reaches.drops.ahead there

theorem program_ends [NestingLimit] (closed : Closed tokens) :
    (program tokens (.ofTokens tokens)).2.rest = tokens.drop (tokens.length - 1) := by
  have read := reads_statements (sound_rules nestingLimit) [] (.ofTokens tokens) closed
  have final : tokens.drop (tokens.length - 1) = [tokens.getLast closed.ne_nil] :=
    List.drop_length_sub_one closed.ne_nil
  rw [final, program]
  cases ran : statements allRules [] (.ofTokens tokens) with
  | ok trees stop =>
    rw [show statements (rules nestingLimit) [] (.ofTokens tokens) = _ from ran] at read
    have alone := read.1.ended read.2
    have whole : tokens = tokensOf trees ++ [stop.current] := alone ▸ read.1.rest
    simp [alone, whole]
  | error failure stop => simp [flatProgram, List.getLast?_eq_some_getLast closed.ne_nil]

/-- Reading goes on from every token. A statement, an expression or a part of one that is read takes
at least one token and never the last one. What is skipped after a failure ends past its start. A
loop ends by itself, with something read in every round but the last, and the whole program is read
up to the last token. -/
theorem parsing_progresses [NestingLimit] (closed : Closed tokens) (levels : Nat)
    (inside : start < tokens.length)
    (diagnostics : List Diagnostic) : let state : State := ⟨tokens.drop start, diagnostics⟩
    (∀ {α : Type} (rule : Rule α), Construct (rules levels) rule →
      Stops tokens start (start + 1) (rule state)) ∧
    (∀ failure stop, state.current.kind ≠ .endOfInput →
      ((rules levels).statement state = .error failure stop →
        Ahead tokens (start + 1) (skipFailedStatement state stop)) ∧
      (tableEntry (rules levels) state = .error failure stop →
        Ahead tokens (start + 1) (skipFailedEntry state stop))) ∧
    (∀ {α : Type} (step : α → Rule (Option α)) (value : α), Loop (rules levels) step →
      Rounds step value state (iterate step value state) ∧
        Stops tokens start start (iterate step value state)) ∧
    (program tokens (.ofTokens tokens)).2.rest = tokens.drop (tokens.length - 1) := by
  intro state
  have there : state.rest = tokens.drop start := rfl
  have ahead : Closed state.rest := by
    rw [← List.take_append_drop start tokens] at closed
    exact closed.of_append (by simpa using inside)
  have sound := sound_rules levels
  refine ⟨fun rule construct => stops_construct construct there ahead,
    fun failure stop goesOn => ⟨fun failed => ?_, fun failed => ?_⟩,
    fun step value loop => ⟨rounds_iterate (turn_loop loop) ahead,
      stops_iterate (turn_loop loop) there ahead⟩, program_ends closed⟩
  · have ran := sound.statement state ahead
    rw [failed] at ran
    exact ran.reaches.past there (resumes_skipFailedStatement ahead goesOn ran.reaches)
  · have ran := reads_tableEntry sound state ahead
    rw [failed] at ran
    exact ran.reaches.past there (resumes_skipFailedEntry ahead goesOn ran.reaches)

theorem parsing_progresses_missing : let tokens := (tokenize "x = ;").tokens
    Stops tokens 0 1 (expression (rules 9) ⟨tokens.drop 0, []⟩) ∧
      ∀ failure stop, (rules 9).statement ⟨tokens.drop 0, []⟩ = .error failure stop →
        Ahead tokens 1 (skipFailedStatement ⟨tokens.drop 0, []⟩ stop) :=
  have progresses := parsing_progresses (closed_tokenize "x = ;") 9 (by decide +kernel) []
  ⟨progresses.1 _ .expression,
    fun failure stop failed => (progresses.2.1 failure stop (by decide +kernel)).1 failed⟩

end Positions

end Squirrel.Grammar
