import Squirrel.Proofs.Grammar.Location
import Squirrel.Proofs.Grammar.Recasting
import Squirrel.Proofs.Token.Cutting
import Squirrel.Proofs.Tree.Shape

/-! A statement that is cut out of its source is read on its own as it was read there. -/

namespace Squirrel

def Label.holdsStatements : Label → Bool
  | .program | .block | .caseBody => true
  | _ => false

namespace Tree

def ownStatements : Tree → List Tree
  | .leaf _ => []
  | .node label children => if label.holdsStatements then children.filter (·.isNode) else []

def statements (tree : Tree) : List Tree := tree.nodes.flatMap (·.ownStatements)

def statementsOf (trees : List Tree) : List Tree := (nodesOf trees).flatMap (·.ownStatements)

section Statements

variable {tree : Tree} {trees : List Tree}

@[simp] theorem statements_leaf (token : Token) : (leaf token).statements = [] := by
  rw [statements, nodes, List.flatMap_nil]

@[simp] theorem statements_node (label : Label) (children : List Tree) :
    (node label children).statements =
      (if label.holdsStatements then children.filter (·.isNode) else []) ++
        statementsOf children := by
  rw [statements, nodes, List.flatMap_cons, ownStatements, statementsOf]

@[simp] theorem statementsOf_nil : statementsOf [] = [] := by
  rw [statementsOf, nodesOf, List.flatMap_nil]

@[simp] theorem statementsOf_cons (tree : Tree) (trees : List Tree) :
    statementsOf (tree :: trees) = tree.statements ++ statementsOf trees := by
  rw [statementsOf, nodesOf, List.flatMap_append, statements, statementsOf]

@[simp] theorem statementsOf_append (first second : List Tree) :
    statementsOf (first ++ second) = statementsOf first ++ statementsOf second := by
  induction first with
  | nil => simp
  | cons tree first ih => simp [ih]

@[simp] theorem statementsOf_leaves (tokens : List Token) : statementsOf (tokens.map .leaf) = [] := by
  induction tokens with
  | nil => simp
  | cons token tokens ih => simp [ih]

theorem tokens_child {child : Tree} (member : child ∈ trees) : child.tokens <:+: tokensOf trees := by
  obtain ⟨before, after, rfl⟩ := List.append_of_mem member
  rw [tokensOf_append, tokensOf_cons]
  exact ⟨_, _, by rw [List.append_assoc]⟩

theorem sourceText_eq {first : Token} {others : List Token} (shape : tree.tokens = first :: others)
    (source : List Char) : tree.sourceText source = slice source first.span.start
      ((first :: others).getLast (List.cons_ne_nil _ _)).span.stop := by
  have last := List.getLast?_eq_some_getLast (List.cons_ne_nil first others)
  rw [sourceText, range, firstToken?_eq, lastToken?_eq, shape, last]
  rfl

mutual

theorem tokens_statements {statement : Tree} : (tree : Tree) → statement ∈ tree.statements →
    statement.tokens <:+: tree.tokens
  | .leaf token, member => by simp at member
  | .node label children, member => by
    rw [statements_node, List.mem_append] at member
    rw [tokens_node]
    rcases member with own | inside
    · split at own
      · exact tokens_child (List.mem_filter.mp own).1
      · cases own
    · exact tokens_statementsOf children inside

theorem tokens_statementsOf {statement : Tree} : (trees : List Tree) →
    statement ∈ statementsOf trees → statement.tokens <:+: tokensOf trees
  | [], member => by simp at member
  | tree :: trees, member => by
    rw [statementsOf_cons, List.mem_append] at member
    rw [tokensOf_cons]
    rcases member with first | later
    · exact (tokens_statements tree first).trans (List.prefix_append _ _).isInfix
    · exact (tokens_statementsOf trees later).trans (List.suffix_append _ _).isInfix

end

end Statements

end Tree

namespace Grammar

open Squirrel.Tree (tokensOf nextOf statementsOf)

section Statements

variable {levels : Nat} {category : Category} {trees : List Tree} {next : Token}

def Stands (levels : Nat) (statement : Tree) : Prop :=
  ∃ inner ≤ levels, ∃ after, Derives inner .unit [statement] after

theorem Derives.each_stands {closers : List Kind}
    (derived : Derives levels (.statements closers) trees next) :
    ∀ statement ∈ trees, Stands levels statement := by
  generalize isList : Category.statements closers = category at derived
  induction derived with
  | noStatement => simp
  | statements _ _ first _ _ ih =>
    cases isList
    rw [List.forall_mem_cons]
    exact ⟨⟨_, Nat.le_refl _, _, first⟩, ih rfl⟩
  | _ => cases isList

theorem statements_makeCall (callee list : Tree) :
    (makeCall callee list).statements = callee.statements ++ list.statements := by
  rcases label_makeCall callee list with shape | shape <;>
    simp [shape, Label.holdsStatements]

theorem holdsStatements_lambdaLabel (list body : Tree) :
    (lambdaLabel list body).holdsStatements = false := by
  unfold lambdaLabel
  split <;> rfl

theorem holdsStatements_operatorLabel (kind : Kind) :
    (operatorLabel kind).holdsStatements = false := by
  unfold operatorLabel
  split <;> rfl

theorem holdsStatements_assignmentLabel (kind : Kind) :
    (assignmentLabel kind).holdsStatements = false := by
  unfold assignmentLabel
  split <;> rfl

theorem statementsOf_names {names : List Tree} (named : LoopNames names) :
    statementsOf names = [] := by
  rcases named with ⟨name, -, rfl⟩ | ⟨key, comma, value, -, -, -, rfl⟩ <;> simp

theorem Derives.stands (derived : Derives levels category trees next) :
    ∀ statement ∈ statementsOf trees, Stands levels statement := by
  induction derived with
  | deeper _ ih =>
    intro statement member
    obtain ⟨inner, within, after, own⟩ := ih statement member
    exact ⟨inner, Nat.le_succ_of_le within, after, own⟩
  | block _ between _ ih =>
    have each := between.each_stands
    simp_all [Label.holdsStatements, or_imp]
  | caseBody inside ih =>
    have each := inside.each_stands
    simp_all [Label.holdsStatements, or_imp]
  | lambda => simp_all [holdsStatements_lambdaLabel, or_imp]
  | infixOperator => simp_all [holdsStatements_operatorLabel, or_imp]
  | assignment => simp_all [holdsStatements_assignmentLabel, or_imp]
  | call => simp_all [statements_makeCall, or_imp]
  | foreachStatement _ _ named =>
    have none : statementsOf _ = [] := statementsOf_names named
    simp_all [Label.holdsStatements, or_imp]
  | _ => simp_all [Label.holdsStatements, errorNode, or_imp]

theorem Derives.proper (derived : Derives levels category trees next)
    (clean : Tree.errorsOf trees = 0) : ∀ token ∈ tokensOf trees, token.kind ≠ .error := by
  intro token member isError
  rcases Tree.coveredOf isError trees [] member with stray | ⟨site, found, -⟩
  · rw [derived.no_strays] at stray
    cases stray
  · rw [← Tree.length_errorSitesOf trees [], List.length_eq_zero_iff] at clean
    rw [clean] at found
    cases found

end Statements

end Grammar

section Replacing

variable {old new : List Token}

/-- Takes the tokens of one list to those of another one, place by place. -/
def replacing (old new : List Token) (token : Token) : Token :=
  ((old.zip new).lookup token).getD token

theorem replacing_cons (first first' token : Token) :
    replacing (first :: old) (first' :: new) token =
      if token = first then first' else replacing old new token := by
  rw [replacing, List.zip_cons_cons, List.lookup_cons]
  by_cases same : token = first
  · simp [same]
  · simp [same, replacing, beq_eq_false_iff_ne.mpr same]

theorem replacing_agrees {α : Type} (view : Token → α) (agree : new.map view = old.map view)
    (token : Token) : view (replacing old new token) = view token := by
  induction old generalizing new with
  | nil => rfl
  | cons first old ih =>
    cases new with
    | nil => rfl
    | cons first' new =>
      rw [List.map_cons, List.map_cons, List.cons.injEq] at agree
      rw [replacing_cons]
      split
      · next same => rw [same, agree.1]
      · exact ih agree.2

theorem map_replacing (distinct : old.Nodup) (length : new.length = old.length) :
    old.map (replacing old new) = new := by
  induction old generalizing new with
  | nil => exact (List.length_eq_zero_iff.mp length).symm
  | cons first old ih =>
    cases new with
    | nil => cases length
    | cons first' new =>
      obtain ⟨fresh, others⟩ := List.nodup_cons.mp distinct
      rw [List.map_cons, replacing_cons, if_pos rfl, List.cons.injEq]
      refine ⟨rfl, ?_⟩
      calc old.map (replacing (first :: old) (first' :: new)) = old.map (replacing old new) := by
            refine List.map_congr_left fun token member => ?_
            have other : token ≠ first := by
              rintro rfl
              exact fresh member
            rw [replacing_cons, if_neg other]
        _ = new := ih others (Nat.succ.inj length)

end Replacing

section Distinct

variable {source : List Char} {start stop : Nat} {tokens : List Token}

theorem Tiles.increasing (tiles : Tiles source start (tokens.flatMap (·.pieces)) stop)
    (filled : ∀ token ∈ tokens.dropLast, token.text ≠ "") :
    tokens.Pairwise (·.span.start < ·.span.start) ∧ ∀ token ∈ tokens, start ≤ token.span.start := by
  induction tokens generalizing start with
  | nil => simp
  | cons first tokens ih =>
    rw [List.flatMap_cons] at tiles
    obtain ⟨middle, own, others⟩ := tiles_append tiles
    obtain ⟨increasing, after⟩ := ih others fun token member => filled token (by
      rw [List.dropLast_cons_of_ne_nil (List.ne_nil_of_mem (List.dropLast_subset _ member))]
      exact List.mem_cons_of_mem _ member)
    obtain ⟨begins, before, here, cut, rest⟩ := tiles_append own
    have nonempty (goesOn : tokens ≠ []) : first.span.start < first.span.stop := by
      refine Nat.lt_of_le_of_ne cut.1 fun same => ?_
      have text : first.text.toList = slice source first.span.start first.span.stop := cut.2
      rw [same, slice, Nat.sub_self, List.take_zero] at text
      refine filled first ?_ (String.toList_injective text)
      rw [List.dropLast_cons_of_ne_nil goesOn]
      exact List.mem_cons_self
    have inside := before.le
    have beyond : first.span.stop ≤ middle := rest.le
    have place : first.span.start = begins := here
    refine ⟨List.pairwise_cons.mpr ⟨fun token member => ?_, increasing⟩, ?_⟩
    · have later := after token member
      have long := nonempty (List.ne_nil_of_mem member)
      omega
    · rw [List.forall_mem_cons]
      have ends : first.span.start ≤ first.span.stop := cut.1
      refine ⟨by omega, fun token member => ?_⟩
      have later := after token member
      omega

end Distinct

section Cutting

open Grammar (Stands Derives)

variable {source : String} {statement : Tree}

theorem stands_statement [NestingLimit] (member : statement ∈ (parse source).tree.statements) :
    Stands nestingLimit statement ∧ ∃ before after,
      (tokenize source).tokens = before ++ statement.tokens ++ after ∧ after ≠ [] ∧
        ∀ token ∈ statement.tokens, token.kind ≠ .endOfInput := by
  obtain ⟨trees, last, shape, isProgram⟩ := parse_isProgram source
  have closed := closed_tokenize source
  rw [isProgram.split] at closed
  rw [shape,
    Tree.statements_node] at member
  have standsIn : Stands nestingLimit statement ∧ statement.tokens <:+: Tree.tokensOf trees := by
    rcases List.mem_append.mp member with own | inside
    · have child : statement ∈ trees := by
        simpa [Label.holdsStatements, List.filter_append] using
          (List.mem_filter.mp (by simpa [Label.holdsStatements] using own)).1
      exact ⟨isProgram.derived.each_stands statement child, Tree.tokens_child child⟩
    · have inner : statement ∈ Tree.statementsOf trees := by simpa using inside
      exact ⟨isProgram.derived.stands statement inner, Tree.tokens_statementsOf trees inner⟩
  obtain ⟨stands, before, after, shape⟩ := standsIn
  refine ⟨stands, before, after ++ [last], ?_, by simp, fun token inside => ?_⟩
  · rw [isProgram.split, ← shape, List.append_assoc _ after]
  · refine closed.front token ?_
    rw [← shape]
    exact List.mem_append_left _ (List.mem_append_right _ inside)

theorem increasing_spans (source : String) :
    (tokenize source).tokens.Pairwise (·.span.start < ·.span.start) := by
  obtain ⟨trees, last, -, isProgram⟩ := parse_isProgram source
  have closed := closed_tokenize source
  have filled : ∀ token ∈ (tokenize source).tokens.dropLast, token.text ≠ "" := by
    intro token member
    refine text_ne_empty source (List.dropLast_subset _ member) ?_
    rw [isProgram.split] at closed member
    rw [List.dropLast_concat] at member
    exact closed.front token member
  exact ((tiles_tokenize source).increasing filled).1

theorem distinct_spans (source : String) : ((tokenize source).tokens.map (·.span)).Nodup := by
  refine List.pairwise_map.mpr ((increasing_spans source).imp fun less same => ?_)
  exact Nat.lt_irrefl _ (congrArg Span.start same ▸ less)

theorem distinct_tokens {before tokens after : List Token}
    (split : (tokenize source).tokens = before ++ tokens ++ after) : tokens.Nodup := by
  have distinct : (tokenize source).tokens.Nodup :=
    List.Pairwise.of_map _ (fun _ _ apart same => apart (congrArg _ same)) (distinct_spans source)
  rw [split] at distinct
  exact ((List.sublist_append_right before tokens).trans (List.sublist_append_left _ after)).nodup distinct

theorem Token.startsLine_eq (token : Token) :
    token.startsLine = decide (0 < token.newlinesBefore) := by
  rw [Token.startsLine, Token.newlinesBefore, Bool.eq_iff_iff, decide_eq_true_iff, List.any_eq_true,
    List.countP_pos_iff]

/-- A statement that stands on its own is read as a program from tokens that say the same, with
lines before all but the first one as before. -/
theorem parseTokens_alone [NestingLimit] {first first' last : Token} {others others' : List Token}
    (stands : Stands nestingLimit statement) (clean : statement.errors = 0)
    (shape : statement.tokens = first :: others) (distinct : (first :: others).Nodup)
    (goesOn : first.kind ≠ .endOfInput) (same : first'.toLexeme = first.toLexeme)
    (marks : others'.map (·.mark) = others.map (·.mark)) (ended : last.kind = .endOfInput) :
    ∃ alone, parseTokens (first' :: others' ++ [last]) = ⟨.node .program [alone, .leaf last], []⟩ ∧
      alone.recast Token.bare = statement.recast Token.bare := by
  obtain ⟨inner, within, after, derived⟩ := stands
  let change := replacing (first :: others) (first' :: others')
  have lexemes : others'.map (·.toLexeme) = others.map (·.toLexeme) := by
    have views := congrArg (List.map Prod.fst) marks
    rw [List.map_map, List.map_map] at views
    exact views
  have lines : others'.map (·.startsLine) = others.map (·.startsLine) := by
    have views := congrArg (List.map fun mark : Mark => decide (0 < mark.2)) marks
    rw [List.map_map, List.map_map] at views
    simp only [Token.startsLine_eq]
    exact views
  have alike : ∀ token, (change token).toLexeme = token.toLexeme :=
    replacing_agrees (·.toLexeme) (by simp [same, lexemes])
  have new : statement.tokens.map change = first' :: others' := by
    rw [shape]
    refine map_replacing distinct ?_
    simpa using congrArg List.length lexemes
  have kept : Grammar.KeepsAfter change [statement] := by
    intro token member
    have later : token ∈ others := by simpa [shape] using member
    have other : token ≠ first := by
      rintro rfl
      exact (List.nodup_cons.mp distinct).1 later
    have moved : change token = replacing others others' token := by
      rw [show change token = _ from replacing_cons first first' token, if_neg other]
    rw [moved]
    exact replacing_agrees (·.startsLine) lines token
  have unit := derived.recast alike rfl within kept (.inr ⟨rfl, ended⟩)
  have starts : Tree.nextOf [statement.recast change] last = first' := by
    simp [Tree.nextOf, Tree.tokens_recast, new]
  have run : Derives nestingLimit (.statements []) [statement.recast change] last := by
    refine .statements ?_ rfl unit (.noStatement (.inl ended))
    rw [starts, same]
    exact goesOn
  have read := Grammar.parseTokens_of_derives run (by simp [Tree.errors_recast, clean])
  rw [Tree.tokensOf_cons, Tree.tokensOf_nil, List.append_nil, Tree.tokens_recast, new] at read
  exact ⟨statement.recast change, read, Tree.bare_recast alike statement⟩

end Cutting

/-- A statement without errors, cut out of its source, is a program of that one statement: nothing
is wrong with the order of its tokens, and its tree is the same but for trivia and places. -/
theorem parse_statement [NestingLimit] (source : String) :
    ∀ statement ∈ (parse source).tree.statements, statement.errors = 0 →
      (∀ diagnostic ∈ (parse (String.ofList (statement.sourceText source.toList))).diagnostics,
        diagnostic.kind ≠ .syntaxError) ∧
      ∃ alone last,
        (parse (String.ofList (statement.sourceText source.toList))).tree =
          .node .program [alone, .leaf last] ∧
        alone.recast Token.bare = statement.recast Token.bare := by
  intro statement member clean
  obtain ⟨stands, before, after, split, some, goesOn⟩ := stands_statement member
  obtain ⟨first, others, shape⟩ : ∃ first others, statement.tokens = first :: others := by
    obtain ⟨_, _, _, derived⟩ := stands
    exact List.exists_cons_of_ne_nil (by simpa using derived.full)
  have proper : ∀ token ∈ statement.tokens, token.kind ≠ .error := by
    obtain ⟨_, _, _, derived⟩ := stands
    simpa using derived.proper (by simpa using clean)
  have distinct := distinct_tokens split
  rw [shape] at split goesOn proper distinct
  obtain ⟨breaks, marks⟩ := tokenize_cut split some proper
  rw [← Tree.sourceText_eq shape] at marks
  generalize String.ofList (statement.sourceText source.toList) = cut at marks ⊢
  obtain ⟨new, ending, listed, own, final⟩ := List.map_eq_append_iff.mp marks
  obtain ⟨first', others', rfl, same, rest⟩ := List.map_eq_cons_iff.mp own
  obtain ⟨last, nothing, rfl, ended, empty⟩ := List.map_eq_cons_iff.mp final
  obtain rfl := List.map_eq_nil_iff.mp empty
  obtain ⟨alone, read, same⟩ := parseTokens_alone stands clean shape distinct
    (goesOn first (List.mem_cons_self ..)) (congrArg Prod.fst same) rest
    (congrArg (fun mark : Mark => mark.1.kind) ended)
  rw [← listed] at read
  refine ⟨fun diagnostic reported isSyntax => ?_, alone, last, congrArg Parsed.tree read, same⟩
  rw [mem_parse_diagnostics, read] at reported
  rcases reported with lexical | grammatical
  · rcases (tokenize_accounted cut).2 diagnostic lexical with escape | ⟨⟨fault, isLexical, _⟩, _⟩
    · exact Diagnostic.not_isEscape_of_kind isSyntax escape
    · rw [Diagnostic.kind, isLexical] at isSyntax
      cases isSyntax
  · cases grammatical

theorem parse_statement_return :
    ∃ statement ∈ (parse "\x7b return\n[a] \x7d").tree.statements, statement.errors = 0 ∧
      statement.sourceText "\x7b return\n[a] \x7d".toList = "return".toList ∧
      (∀ diagnostic ∈ (parse "return").diagnostics, diagnostic.kind ≠ .syntaxError) ∧
      ∃ alone last, (parse "return").tree = .node .program [alone, .leaf last] ∧
        alone.recast Token.bare = statement.recast Token.bare := by
  have one : (parse "\x7b return\n[a] \x7d").tree.statements.any (fun statement =>
      statement.errors = 0 ∧
        statement.sourceText "\x7b return\n[a] \x7d".toList = "return".toList) := by
    decide +kernel
  obtain ⟨statement, member, holds⟩ := List.any_eq_true.mp one
  obtain ⟨clean, text⟩ := of_decide_eq_true holds
  have alone := parse_statement _ statement member clean
  rw [text, String.ofList_toList] at alone
  exact ⟨statement, member, clean, text, alone⟩

end Squirrel
