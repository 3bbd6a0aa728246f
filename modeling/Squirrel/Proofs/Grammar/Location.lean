import Squirrel.Proofs.Grammar.Lossless
import Squirrel.Proofs.Token.Faults

/-! Error nodes and diagnostics locate each other. -/

namespace Squirrel

namespace Tree

mutual

def strays : Tree → List Token
  | .leaf token => if token.kind = .error then [token] else []
  | .node label children => if label = .error then [] else straysOf children

def straysOf : List Tree → List Token
  | [] => []
  | tree :: trees => tree.strays ++ straysOf trees

end

@[simp] theorem straysOf_nil : straysOf [] = [] := by rw [straysOf]

@[simp] theorem straysOf_cons (tree : Tree) (trees : List Tree) :
    straysOf (tree :: trees) = tree.strays ++ straysOf trees := by rw [straysOf]

@[simp] theorem straysOf_append (first second : List Tree) :
    straysOf (first ++ second) = straysOf first ++ straysOf second := by
  induction first with
  | nil => simp
  | cons tree first ih => simp [ih]

theorem strays_leaf (token : Token) :
    (leaf token).strays = if token.kind = .error then [token] else [] := by rw [strays]

theorem strays_node (label : Label) (children : List Tree) :
    (node label children).strays = if label = .error then [] else straysOf children := by
  rw [strays]

mutual

theorem covered {token : Token} (malformed : token.kind = .error) :
    (tree : Tree) → (after : List Token) → token ∈ tree.tokens →
      token ∈ tree.strays ∨ ∃ site ∈ tree.errorSites after, token ∈ site.inside
  | .leaf own, after, member => by
    obtain rfl : token = own := by simpa using member
    simp [strays_leaf, malformed]
  | .node label children, after, member => by
    rw [tokens_node] at member
    rw [strays_node, errorSites_node]
    by_cases isError : label = .error
    · exact .inr ⟨⟨tokensOf children, after⟩, by simp [isError], member⟩
    · rw [if_neg isError, if_neg isError, List.nil_append]
      exact coveredOf malformed children after member

theorem coveredOf {token : Token} (malformed : token.kind = .error) :
    (trees : List Tree) → (after : List Token) → token ∈ tokensOf trees →
      token ∈ straysOf trees ∨ ∃ site ∈ errorSitesOf trees after, token ∈ site.inside
  | [], after, member => by simp at member
  | tree :: trees, after, member => by
    rw [tokensOf_cons, List.mem_append] at member
    rw [straysOf_cons, errorSitesOf_cons]
    rcases member with first | later
    · rcases covered malformed tree (tokensOf trees ++ after) first with stray | ⟨site, own, held⟩
      · exact .inl (List.mem_append_left _ stray)
      · exact .inr ⟨site, List.mem_append_left _ own, held⟩
    · rcases coveredOf malformed trees after later with stray | ⟨site, own, held⟩
      · exact .inl (List.mem_append_right _ stray)
      · exact .inr ⟨site, List.mem_append_right _ own, held⟩

end

end Tree

namespace Grammar

open Squirrel.Tree (tokensOf straysOf errorSitesOf strays_leaf strays_node)

theorem strays_makeCall (callee list : Tree) :
    (makeCall callee list).strays = callee.strays ++ list.strays := by
  rcases label_makeCall callee list with shape | shape <;> simp [shape, strays_node]

theorem strays_errorNode (tokens : List Token) : (errorNode tokens).strays = [] := by
  simp [errorNode, strays_node]

theorem strays_proper {label : Label} (proper : label ≠ .error) (children : List Tree) :
    (Tree.node label children).strays = straysOf children := by
  rw [strays_node, if_neg proper]

theorem strays_kind {token : Token} {holds : Kind → Bool} (met : holds token.kind)
    (proper : holds .error = false) : (Tree.leaf token).strays = [] := by
  rw [strays_leaf, if_neg]
  intro malformed
  rw [malformed, proper] at met
  cases met

theorem straysOf_loopNames {names : List Tree} (named : LoopNames names) : straysOf names = [] := by
  rcases named with ⟨name, isName, rfl⟩ | ⟨key, comma, value, isKey, isComma, isValue, rfl⟩
  · simp [strays_leaf, isName]
  · simp [strays_leaf, isKey, isComma, isValue]

theorem straysOf_scope {scope : List Token}
    (placed : scope = [] ∨ ∃ word : Token, word.kind = .kwLocal ∧ scope = [word]) :
    straysOf (scope.map .leaf) = [] := by
  rcases placed with rfl | ⟨word, isWord, rfl⟩
  · simp
  · simp [strays_leaf, isWord]

theorem straysOf_functionEnding {ending : List Token} {next : Token}
    (ends : (ending = [] ∧ closesFunction next = false) ∨
      ∃ semicolon : Token, closesFunction semicolon ∧ ending = [semicolon]) :
    straysOf (ending.map .leaf) = [] := by
  rcases ends with ⟨rfl, _⟩ | ⟨semicolon, closes, rfl⟩
  · simp
  · have isSemicolon : semicolon.kind = .semicolon := by
      simpa using (Bool.and_eq_true_iff.mp closes).1
    simp [strays_leaf, isSemicolon]

theorem Derives.no_strays {levels : Nat} {category : Category} {trees : List Tree} {next : Token}
    (derived : Derives levels category trees next) : straysOf trees = [] := by
  induction derived with
  | literal isLiteral => simp [strays_node, strays_kind isLiteral rfl]
  | lambda isSign _ _ _ headIh insideIh =>
    simp_all [strays_proper (lambdaLabel_ne_error _ _), strays_leaf]
  | call _ _ calledIh givenIh => simp_all [strays_makeCall]
  | postUpdate _ isUpdate _ ih =>
    rcases isUpdate with isKind | isKind <;> simp_all [strays_node, strays_leaf]
  | unaryOperator isOperator _ ih => simp_all [strays_node, strays_kind isOperator rfl]
  | infixOperator _ binds _ _ startIh appliedIh =>
    have bound := Option.isSome_of_eq_some binds
    simp_all [strays_proper (operatorLabel_ne_error _),
      @strays_kind _ (fun kind => kind.precedence?.isSome) bound rfl]
  | assignment _ isOperator _ assignedIh givenIh =>
    simp_all [strays_proper (assignmentLabel_ne_error _), strays_kind isOperator rfl]
  | skippedEntry | skippedUnit => simp [strays_errorNode]
  | foreachStatement _ _ named _ _ _ _ iteratedIh governedIh =>
    simp_all [strays_node, strays_leaf, straysOf_loopNames named]
  | pathStep separates _ _ ih =>
    simp_all [strays_leaf, @strays_kind _ [Kind.doubleColon, .dot].contains separates rfl]
  | functionDeclaration placed isWord _ _ _ ends =>
    have scope : straysOf (List.map Tree.leaf _) = [] := straysOf_scope placed
    have ending : straysOf (List.map Tree.leaf _) = [] := straysOf_functionEnding ends
    simp_all [strays_node, strays_leaf]
  | _ => simp_all [strays_node, strays_leaf]

end Grammar

theorem mem_parse_diagnostics [NestingLimit] (source : String) (diagnostic : Diagnostic) :
    diagnostic ∈ (parse source).diagnostics ↔
      diagnostic ∈ (tokenize source).diagnostics ∨
        diagnostic ∈ (parseTokens (tokenize source).tokens).diagnostics := by
  rw [parse, Diagnostic.inSourceOrder, List.mem_mergeSort, List.mem_append]

theorem errors_of_quiet [NestingLimit] {source : String} (quiet : (parse source).diagnostics = []) :
    (parse source).tree.errors = 0 := by
  obtain ⟨trees, last, shape, isProgram⟩ := parse_isProgram source
  have silent (diagnostic : Diagnostic) := mem_parse_diagnostics source diagnostic
  simp only [quiet, List.not_mem_nil, false_iff, not_or] at silent
  have none : Tree.errorSitesOf trees [last] = [] := by
    refine List.eq_nil_iff_forall_not_mem.mpr fun site member => ?_
    rcases isProgram.witnessed site member with ⟨token, inside, isError⟩ | ⟨diagnostic, given, -⟩
    · obtain ⟨before, between, shape, -⟩ := Tree.liesIn_of_memOf trees member
      have listed : token ∈ (tokenize source).tokens := by
        rw [isProgram.split, shape]
        simp [inside]
      obtain ⟨diagnostic, given, -⟩ := (tokenize_accounted source).1 token listed isError
      exact (silent diagnostic).1 given
    · exact (silent diagnostic).2 given
  rw [shape, Tree.errors_node,
    ← Tree.length_errorSitesOf _ []]
  simp [none]

theorem Diagnostic.IsMalformed.not_isEscape {diagnostic : Diagnostic}
    (malformed : diagnostic.IsMalformed) : ¬ diagnostic.IsEscape := by
  obtain ⟨fault, same, other⟩ := malformed
  rintro ⟨escaped, isEscape⟩
  rw [same] at isEscape
  cases isEscape
  cases other

theorem Diagnostic.not_isEscape_of_kind {diagnostic : Diagnostic}
    (isSyntax : diagnostic.kind = .syntaxError) : ¬ diagnostic.IsEscape := by
  rintro ⟨escaped, isEscape⟩
  rw [Diagnostic.kind, isEscape] at isSyntax
  cases isSyntax

/-- Every syntax error is on a token of an error node or on the one right after it; every malformed
token is in an error node; every error node holds the token of a diagnostic other than an escape
without a meaning, or stands right before it. So there is no error node if and only if nothing but
such escapes is reported. -/
theorem parse_errors_located [NestingLimit] (source : String) :
    (∀ diagnostic ∈ (parse source).diagnostics, diagnostic.kind = .syntaxError →
        ∃ site ∈ (parse source).tree.errorSites [], diagnostic.SitsOn site.reach) ∧
      (∀ token ∈ (tokenize source).tokens, token.kind = .error →
        ∃ site ∈ (parse source).tree.errorSites [], token ∈ site.inside) ∧
      (∀ site ∈ (parse source).tree.errorSites [],
        ∃ diagnostic ∈ (parse source).diagnostics,
          ¬ diagnostic.IsEscape ∧ diagnostic.SitsOn site.reach) ∧
      ((parse source).tree.errorSites [] = [] ↔
        ∀ diagnostic ∈ (parse source).diagnostics, diagnostic.IsEscape) := by
  obtain ⟨trees, last, shape, isProgram⟩ := parse_isProgram source
  obtain ⟨malformed, reported⟩ := tokenize_accounted source
  have ended : last.kind = .endOfInput := isProgram.derived.statements_end
  have sites : (parse source).tree.errorSites [] = Tree.errorSitesOf trees [last] := by
    rw [shape]
    simp [Tree.errorSites_node]
  have located : ∀ diagnostic ∈ (parse source).diagnostics, diagnostic.kind = .syntaxError →
      ∃ site ∈ (parse source).tree.errorSites [], diagnostic.SitsOn site.reach := by
    intro diagnostic member isSyntax
    rw [mem_parse_diagnostics] at member
    rw [sites]
    rcases member with lexical | grammatical
    · rcases reported diagnostic lexical with escape | ⟨⟨fault, same, _⟩, _⟩
      · exact absurd escape (Diagnostic.not_isEscape_of_kind isSyntax)
      · rw [Diagnostic.kind, same] at isSyntax
        cases isSyntax
    · obtain ⟨site, inside, _, sits⟩ := isProgram.located diagnostic grammatical
      exact ⟨site, inside, sits⟩
  have held : ∀ token ∈ (tokenize source).tokens, token.kind = .error →
      ∃ site ∈ (parse source).tree.errorSites [], token ∈ site.inside := by
    intro token member isError
    rw [isProgram.split, List.mem_append, List.mem_singleton] at member
    rw [sites]
    rcases member with inside | rfl
    · rcases Tree.coveredOf isError trees [last] inside with stray | found
      · rw [isProgram.derived.no_strays] at stray
        cases stray
      · exact found
    · rw [ended] at isError
      cases isError
  have witnessed : ∀ site ∈ (parse source).tree.errorSites [],
      ∃ diagnostic ∈ (parse source).diagnostics,
        ¬ diagnostic.IsEscape ∧ diagnostic.SitsOn site.reach := by
    intro site member
    rw [sites] at member
    rcases isProgram.witnessed site member with ⟨token, inside, isError⟩ | ⟨diagnostic, given, blames⟩
    · have listed : token ∈ (tokenize source).tokens := by
        obtain ⟨before, between, shape, _⟩ := Tree.liesIn_of_memOf trees member
        rw [isProgram.split, shape]
        simp [inside]
      obtain ⟨diagnostic, given, isMalformed, same⟩ := malformed token listed isError
      exact ⟨diagnostic, (mem_parse_diagnostics _ _).mpr (.inl given), isMalformed.not_isEscape,
        token, List.mem_append_left _ inside, same⟩
    · exact ⟨diagnostic, (mem_parse_diagnostics _ _).mpr (.inr given),
        Diagnostic.not_isEscape_of_kind blames.1, blames.2⟩
  refine ⟨located, held, witnessed, fun empty diagnostic member => ?_, fun escapes => ?_⟩
  · rw [mem_parse_diagnostics] at member
    rw [empty] at held
    rcases member with lexical | grammatical
    · rcases reported diagnostic lexical with escape | ⟨_, token, inside, isError, _⟩
      · exact escape
      · obtain ⟨site, ⟨⟩, _⟩ := held token inside isError
    · obtain ⟨site, inside, _⟩ := isProgram.located diagnostic grammatical
      rw [← sites, empty] at inside
      cases inside
  · refine List.eq_nil_iff_forall_not_mem.mpr fun site member => ?_
    obtain ⟨diagnostic, given, notEscape, _⟩ := witnessed site member
    exact notEscape (escapes diagnostic given)

end Squirrel
